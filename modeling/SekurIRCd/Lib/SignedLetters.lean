/-
# Signed letters with arguments

Several text protocols write a batch of changes as one word of letters under `+` and `-` signs,
followed by the arguments of those letters that have one: `+nk-t secret`.  The sign is written
only where it changes.  A reader walks the letters and decides for each, from the sign and the
letter alone, whether it takes the next argument.

The writer knows which changes had an argument; the reader guesses it from a table.  The one
question is whether the reader's pairing is the writer's, and the answer is exact: it is when
the changes are `Aligned` with the table (`walk_encode_iff`), which is weaker than agreeing with
it letter by letter (`Exact`), since a letter that wants an argument and finds none left goes
on without.  A strict reader rejects that too, and for it agreement is `Exact`
(`strictWalk_encode_iff`).
-/
import SekurIRCd.Lib.CString

namespace CLib

/-- One change: its sign, its letter and the argument it was written with. -/
structure Signed (β : Type*) where
  add : Bool
  letter : Char
  arg : Option β
deriving DecidableEq, Repr

namespace Signed

variable {β : Type*}

/-! ## 1. Writing

The writer leaves out a sign that is in force, so what it writes for a change depends on the change
before. -/

def signChar (add : Bool) : Char := if add then '+' else '-'

/-- One letter behind what was written under the sign `cur`. -/
def encodeOne (cur : Option Bool) (t : Signed β) : Text :=
  (if cur = some t.add then [] else [signChar t.add]) ++ [t.letter]

/-- The word of letters, with each sign where it changes. -/
def encode : Option Bool → List (Signed β) → Text
  | _, [] => []
  | cur, t :: ts => encodeOne cur t ++ encode (some t.add) ts

/-- The arguments, in the order of their letters. -/
def argsOf (ts : List (Signed β)) : List β := ts.filterMap Signed.arg

/-- The sign in force behind `ts`. -/
def signAfter (cur : Option Bool) (ts : List (Signed β)) : Option Bool :=
  match ts.getLast? with
  | some t => some t.add
  | none => cur

@[simp] theorem encode_nil (cur : Option Bool) : encode cur ([] : List (Signed β)) = [] := rfl

@[simp] theorem argsOf_nil : argsOf ([] : List (Signed β)) = [] := rfl

theorem argsOf_cons (t : Signed β) (ts : List (Signed β)) :
    argsOf (t :: ts) = t.arg.toList ++ argsOf ts := by
  cases h : t.arg <;> simp [argsOf, h]

theorem argsOf_append (ts us : List (Signed β)) : argsOf (ts ++ us) = argsOf ts ++ argsOf us := by
  simp [argsOf]

@[simp] theorem signAfter_nil (cur : Option Bool) : signAfter cur ([] : List (Signed β)) = cur :=
  rfl

@[simp] theorem signAfter_concat (cur : Option Bool) (ts : List (Signed β)) (t : Signed β) :
    signAfter cur (ts ++ [t]) = some t.add := by
  simp [signAfter]

theorem encodeOne_length (cur : Option Bool) (t : Signed β) :
    1 ≤ (encodeOne cur t).length ∧ (encodeOne cur t).length ≤ 2 := by
  unfold encodeOne
  split <;> simp

/-- The first letter of a batch always has its sign. -/
theorem two_le_encode_none {ts : List (Signed β)} (h : ts ≠ []) :
    2 ≤ (encode none ts).length := by
  obtain ⟨t, us, rfl⟩ := List.exists_cons_of_ne_nil h
  simp [encode, encodeOne]

theorem mem_encode {cur : Option Bool} {ts : List (Signed β)} {c : Char} (h : c ∈ encode cur ts) :
    c = '+' ∨ c = '-' ∨ ∃ t ∈ ts, t.letter = c := by
  induction ts generalizing cur with
  | nil => simp at h
  | cons t ts ih =>
    rw [encode, List.mem_append] at h
    rcases h with h | h
    · unfold encodeOne signChar at h
      rcases List.mem_append.mp h with h | h
      · split at h
        · simp at h
        · split at h
          · exact Or.inl (List.mem_singleton.mp h)
          · exact Or.inr (Or.inl (List.mem_singleton.mp h))
      · exact Or.inr (Or.inr ⟨t, by simp, (List.mem_singleton.mp h).symm⟩)
    · rcases ih h with h | h | ⟨u, hu, hc⟩
      · exact Or.inl h
      · exact Or.inr (Or.inl h)
      · exact Or.inr (Or.inr ⟨u, List.mem_cons_of_mem _ hu, hc⟩)

/-! ## 2. Reading

The reader knows the letters and a table, and nothing of the writer. A strict reader refuses a
letter that wants an argument where none is left. -/

/-- The reader: `takes` says which letters want the next argument under which sign. -/
def walk (takes : Bool → Char → Bool) : Bool → Text → List β → List (Signed β)
  | _, [], _ => []
  | sign, c :: cs, as =>
    if c = '+' then walk takes true cs as
    else if c = '-' then walk takes false cs as
    else if takes sign c then ⟨sign, c, as.head?⟩ :: walk takes sign cs as.tail
    else ⟨sign, c, none⟩ :: walk takes sign cs as

/-- A reader that gives up when a letter that takes an argument finds none. -/
def strictWalk (takes : Bool → Char → Bool) (sign : Bool) (s : Text) (as : List β) :
    Option (List (Signed β)) :=
  if (walk takes sign s as).all fun t => !takes t.add t.letter || t.arg.isSome then
    some (walk takes sign s as)
  else none

/-- A letter that is not one of the two signs. -/
def IsLetter (c : Char) : Prop := c ≠ '+' ∧ c ≠ '-'

instance (c : Char) : Decidable (IsLetter c) := inferInstanceAs (Decidable (_ ∧ _))

theorem walk_letter {takes : Bool → Char → Bool} {c : Char} (hc : IsLetter c) (sign : Bool)
    (cs : Text) (as : List β) :
    walk takes sign (c :: cs) as =
      (if takes sign c then ⟨sign, c, as.head?⟩ :: walk takes sign cs as.tail
        else ⟨sign, c, none⟩ :: walk takes sign cs as) := by
  rw [walk, if_neg hc.1, if_neg hc.2]

/-- Where nothing is read there are signs only. -/
theorem signs_of_walk_nil {takes : Bool → Char → Bool} : ∀ {cs : Text} {sign : Bool} {as : List β},
    walk takes sign cs as = [] → ∀ c ∈ cs, c = '+' ∨ c = '-'
  | [], _, _, _ => List.forall_mem_nil _
  | c :: cs, sign, as, h => by
    rw [walk] at h
    by_cases hplus : c = '+'
    · rw [if_pos hplus] at h
      exact List.forall_mem_cons.mpr ⟨Or.inl hplus, signs_of_walk_nil h⟩
    · rw [if_neg hplus] at h
      by_cases hminus : c = '-'
      · rw [if_pos hminus] at h
        exact List.forall_mem_cons.mpr ⟨Or.inr hminus, signs_of_walk_nil h⟩
      · rw [if_neg hminus] at h
        split at h <;> exact absurd h (List.cons_ne_nil _ _)

/-- The sign in front of a letter is read before the letter. -/
theorem walk_encodeOne {takes : Bool → Char → Bool} {cur : Option Bool} {sign : Bool}
    (hcur : ∀ b, cur = some b → b = sign) (t : Signed β) (cs : Text) (as : List β) :
    walk takes sign (encodeOne cur t ++ cs) as = walk takes t.add (t.letter :: cs) as := by
  by_cases h : cur = some t.add
  · rw [encodeOne, if_pos h, hcur _ h, List.nil_append, List.singleton_append]
  · rw [encodeOne, if_neg h]
    cases hadd : t.add <;> simp [signChar, walk]

/-- Letters written under one sign, each with an argument where the table says so, are read as they
were written. -/
theorem walk_written {takes : Bool → Char → Bool} {sign : Bool} (cs : Text) (as : List β) :
    ∀ {ts : List (Signed β)},
      (∀ t ∈ ts, t.add = sign ∧ IsLetter t.letter ∧ t.arg.isSome = takes sign t.letter) →
      walk takes sign (ts.map Signed.letter ++ cs) (argsOf ts ++ as) = ts ++ walk takes sign cs as
  | [], _ => rfl
  | t :: ts, h => by
    obtain ⟨add, c, arg⟩ := t
    obtain ⟨rfl, hc, harg⟩ := h ⟨add, c, arg⟩ List.mem_cons_self
    have ih := walk_written cs as fun u hu => h u (List.mem_cons_of_mem _ hu)
    rw [List.map_cons, List.cons_append, walk_letter hc, argsOf_cons]
    cases arg with
    | none =>
      have hno : takes add c = false := by simpa using harg.symm
      simp only [hno, Bool.false_eq_true, if_false, Option.toList_none, List.nil_append, ih]
      rfl
    | some a =>
      have hyes : takes add c = true := by simpa using harg.symm
      simp only [hyes, if_true, Option.toList_some, List.cons_append, List.nil_append,
        List.head?_cons, List.tail_cons, ih]

/-- Letters without a sign among them are all read under the sign before them. -/
theorem walk_letters {takes : Bool → Char → Bool} {sign : Bool} : ∀ {cs : Text},
    (∀ c ∈ cs, IsLetter c) → ∀ as : List β,
      (walk takes sign cs as).map Signed.letter = cs ∧ ∀ t ∈ walk takes sign cs as, t.add = sign := by
  intro cs
  induction cs with
  | nil => exact fun _ _ => ⟨rfl, fun t ht => absurd ht (by simp [walk])⟩
  | cons c cs ih =>
    intro h as
    rw [walk_letter (h c List.mem_cons_self)]
    have hcs : ∀ d ∈ cs, IsLetter d := fun d hd => h d (List.mem_cons_of_mem _ hd)
    split
    · obtain ⟨hl, hs⟩ := ih hcs as.tail
      exact ⟨congrArg (c :: ·) hl, fun t ht => (List.mem_cons.mp ht).elim (fun e => e ▸ rfl) (hs t)⟩
    · obtain ⟨hl, hs⟩ := ih hcs as
      exact ⟨congrArg (c :: ·) hl, fun t ht => (List.mem_cons.mp ht).elim (fun e => e ▸ rfl) (hs t)⟩

theorem arg_of_walk {takes : Bool → Char → Bool} {t : Signed β} : ∀ {cs : Text} {sign : Bool}
    {as : List β}, t ∈ walk takes sign cs as → takes t.add t.letter = false → t.arg = none := by
  intro cs
  induction cs with
  | nil => exact fun h => absurd h (by simp [walk])
  | cons c cs ih =>
    intro sign as h htakes
    rw [walk] at h
    split at h
    · exact ih h htakes
    · split at h
      · exact ih h htakes
      · split at h
        · rename_i hyes
          rcases List.mem_cons.mp h with rfl | h
          · exact absurd hyes (by simp [htakes])
          · exact ih h htakes
        · rcases List.mem_cons.mp h with rfl | h
          · rfl
          · exact ih h htakes

/-- The arguments decide nothing about which letters are found. -/
theorem letters_walk {takes : Bool → Char → Bool} (as bs : List β) : ∀ (sign : Bool) (cs : Text),
    (walk takes sign cs as).map Signed.letter = (walk takes sign cs bs).map Signed.letter := by
  intro sign cs
  induction cs generalizing sign as bs with
  | nil => rfl
  | cons c cs ih =>
    rw [walk, walk]
    split
    · exact ih as bs true
    · split
      · exact ih as bs false
      · split
        · rw [List.map_cons, List.map_cons, ih as.tail bs.tail sign]
        · rw [List.map_cons, List.map_cons, ih as bs sign]

/-! ## 3. When the two agree

Both answers are exact. The proofs go letter by letter along the word, with the sign in force on
both sides. -/

/-- **The pairing is the writer's**: a letter with an argument is one the table lets take it, and a
letter the table wants an argument for has one or is behind all arguments. -/
def Aligned (takes : Bool → Char → Bool) : List (Signed β) → Prop
  | [] => True
  | t :: ts =>
    (t.arg.isSome = true → takes t.add t.letter = true) ∧
    (takes t.add t.letter = true → t.arg.isSome = true ∨ argsOf ts = []) ∧ Aligned takes ts

/-- The table is right about every letter: one has an argument just when the reader's table says
that it takes one. -/
def Exact (takes : Bool → Char → Bool) (ts : List (Signed β)) : Prop :=
  ∀ t ∈ ts, t.arg.isSome = takes t.add t.letter

theorem Exact.aligned {takes : Bool → Char → Bool} {ts : List (Signed β)} (h : Exact takes ts) :
    Aligned takes ts := by
  induction ts with
  | nil => trivial
  | cons t ts ih =>
    have ht := h t (by simp)
    exact ⟨fun hs => ht ▸ hs, fun hk => Or.inl (ht.trans hk),
      ih fun u hu => h u (List.mem_cons_of_mem _ hu)⟩

/-- **The reader finds the writer's changes exactly when they are aligned with its table.** Signs
and letters are always found; the question is only which argument goes to which letter. -/
theorem walk_encode_iff {takes : Bool → Char → Bool} {ts : List (Signed β)}
    (hl : ∀ t ∈ ts, IsLetter t.letter) {cur : Option Bool} {sign : Bool}
    (hcur : ∀ b, cur = some b → b = sign) :
    walk takes sign (encode cur ts) (argsOf ts) = ts ↔ Aligned takes ts := by
  induction ts generalizing cur sign with
  | nil => simp [encode, walk, Aligned]
  | cons t ts ih =>
    obtain ⟨add, c, arg⟩ := t
    have hc : IsLetter c := hl ⟨add, c, arg⟩ (by simp)
    have ih' : walk takes add (encode (some add) ts) (argsOf ts) = ts ↔ Aligned takes ts :=
      ih (fun u hu => hl u (List.mem_cons_of_mem _ hu)) fun b hb => (Option.some.inj hb).symm
    rw [encode, walk_encodeOne hcur, walk_letter hc, argsOf_cons]
    cases hk : takes add c with
    | false =>
      cases arg with
      | none => simp [Aligned, hk, ih']
      | some a => simp [Aligned, hk]
    | true =>
      cases arg with
      | some a => simp [Aligned, hk, ih']
      | none =>
        cases has : argsOf ts with
        | nil =>
          rw [has] at ih'
          simp [Aligned, hk, has, ih']
        | cons a as => simp [Aligned, hk, has]

/-- A reader hands out the arguments in their order. -/
theorem argsOf_walk (takes : Bool → Char → Bool) : ∀ (s : Text) (sign : Bool) (as : List β),
    ∃ bs, as = argsOf (walk takes sign s as) ++ bs
  | [], _, as => ⟨as, rfl⟩
  | c :: cs, sign, as => by
    rw [walk]
    split
    · exact argsOf_walk takes cs true as
    · split
      · exact argsOf_walk takes cs false as
      · split
        · obtain ⟨bs, hbs⟩ := argsOf_walk takes cs sign as.tail
          cases as with
          | nil => exact ⟨bs, by simpa [argsOf_cons] using hbs⟩
          | cons a as => exact ⟨bs, by simpa [argsOf_cons] using hbs⟩
        · exact argsOf_walk takes cs sign as

/-- With as many arguments as were written, the reader finds the writer's changes only in the
arguments that were written. -/
theorem walk_eq_iff {takes : Bool → Char → Bool} {ts : List (Signed β)}
    (hl : ∀ t ∈ ts, IsLetter t.letter) {cur : Option Bool} {sign : Bool}
    (hcur : ∀ b, cur = some b → b = sign) {as : List β} (hlen : as.length = (argsOf ts).length) :
    walk takes sign (encode cur ts) as = ts ↔ as = argsOf ts ∧ Aligned takes ts := by
  constructor
  · intro h
    obtain ⟨bs, hbs⟩ := argsOf_walk takes (encode cur ts) sign as
    rw [h] at hbs
    have hnil : bs = [] := by
      rw [hbs, List.length_append] at hlen
      exact List.length_eq_zero_iff.mp (by omega)
    rw [hnil, List.append_nil] at hbs
    rw [hbs] at h
    exact ⟨hbs, (walk_encode_iff hl hcur).mp h⟩
  · rintro ⟨rfl, hal⟩
    exact (walk_encode_iff hl hcur).mpr hal

/-- **A strict reader finds them exactly when its table is right about every letter.** It cannot go
on without an argument, so nothing weaker will do. -/
theorem strictWalk_encode_iff {takes : Bool → Char → Bool} {ts : List (Signed β)}
    (hl : ∀ t ∈ ts, IsLetter t.letter) {cur : Option Bool} {sign : Bool}
    (hcur : ∀ b, cur = some b → b = sign) :
    strictWalk takes sign (encode cur ts) (argsOf ts) = some ts ↔ Exact takes ts := by
  have hw : walk takes sign (encode cur ts) (argsOf ts) = ts ↔ Aligned takes ts :=
    walk_encode_iff hl hcur
  constructor
  · intro h
    unfold strictWalk at h
    split at h
    · rename_i hall
      have heq := Option.some.inj h
      rw [heq] at hall
      have hal := hw.mp heq
      intro t ht
      obtain ⟨us, vs, rfl⟩ := List.append_of_mem ht
      have hhas : t.arg.isSome = true → takes t.add t.letter = true := by
        clear h hall heq hw ht
        induction us with
        | nil => exact hal.1
        | cons u us ih => exact ih (fun v hv => hl v (List.mem_cons_of_mem _ hv)) hal.2.2
      have hneed := List.all_eq_true.mp hall t ht
      cases hk : takes t.add t.letter <;> cases hs : t.arg.isSome <;> simp_all
    · exact absurd h (by simp)
  · intro h
    have heq := hw.mpr h.aligned
    have hall : (ts.all fun t => !takes t.add t.letter || t.arg.isSome) = true := by
      rw [List.all_eq_true]
      intro t ht
      rw [h t ht]
      cases takes t.add t.letter <;> rfl
    simp only [strictWalk, heq, hall, if_true]

/-- A strict reader that is content has found an argument for every letter with one, so with
only as many arguments as were written its table is right about every letter. -/
theorem exact_of_strictWalk {takes : Bool → Char → Bool} {ts : List (Signed β)}
    (hl : ∀ t ∈ ts, IsLetter t.letter)
    (hsub : ∀ t ∈ ts, t.arg.isSome = true → takes t.add t.letter = true)
    {cur : Option Bool} {sign : Bool} (hcur : ∀ b, cur = some b → b = sign) {as : List β}
    (h : (walk takes sign (encode cur ts) as).all fun t =>
      !takes t.add t.letter || t.arg.isSome) :
    (argsOf ts).length ≤ as.length ∧ (as.length = (argsOf ts).length → Exact takes ts) := by
  induction ts generalizing cur sign as with
  | nil => exact ⟨Nat.zero_le _, fun _ t ht => absurd ht (by simp)⟩
  | cons t ts ih =>
    have hs := hsub t (by simp)
    have ih' : ∀ {as : List β}, ((walk takes t.add (encode (some t.add) ts) as).all fun t =>
        !takes t.add t.letter || t.arg.isSome) = true →
        (argsOf ts).length ≤ as.length ∧ (as.length = (argsOf ts).length → Exact takes ts) :=
      fun {as} => ih (fun u hu => hl u (List.mem_cons_of_mem _ hu))
        (fun u hu => hsub u (List.mem_cons_of_mem _ hu)) fun b hb => (Option.some.inj hb).symm
    rw [encode, walk_encodeOne hcur, walk_letter (hl t (by simp))] at h
    rw [argsOf_cons]
    have hcons : t.arg.isSome = takes t.add t.letter → Exact takes ts → Exact takes (t :: ts) := by
      intro ht he u hu
      rcases List.mem_cons.mp hu with rfl | hu
      · exact ht
      · exact he u hu
    cases hk : takes t.add t.letter with
    | false =>
      have harg : t.arg = none := by
        cases harg : t.arg with
        | none => rfl
        | some a =>
          have := hs (by rw [harg]; rfl)
          rw [hk] at this
          exact absurd this (by simp)
      simp only [hk, Bool.false_eq_true, if_false, List.all_cons, Bool.and_eq_true] at h
      obtain ⟨h1, h2⟩ := ih' h.2
      simp only [harg, Option.toList_none, List.nil_append]
      exact ⟨h1, fun hlen => hcons (by simp [harg, hk]) (h2 hlen)⟩
    | true =>
      simp only [hk, if_true, List.all_cons, Bool.and_eq_true, Bool.not_true, Bool.false_or] at h
      obtain ⟨hhead, hrest⟩ := h
      obtain ⟨a, as, rfl⟩ : ∃ a as', as = a :: as' := by
        cases as with
        | nil => exact absurd hhead (by simp)
        | cons a as => exact ⟨a, as, rfl⟩
      obtain ⟨h1, h2⟩ := ih' hrest
      simp only [List.tail_cons] at h1 h2
      cases harg : t.arg with
      | none =>
        simp only [Option.toList_none, List.nil_append, List.length_cons]
        exact ⟨by omega, fun hlen => by omega⟩
      | some v =>
        simp only [Option.toList_some, List.length_append, List.length_cons, List.length_nil]
        exact ⟨by omega, fun hlen => hcons (by rw [harg, hk]; rfl) (h2 (by omega))⟩

/-! ## 4. How many arguments there are

A reader that takes only the first `k` arguments of a line: what it finds is what one finds who
takes them all, if the letters that want one are no more than `k`. -/

section Taken

variable {γ : Type*} {takes : Bool → Char → Bool}

/-- How many letters take an argument. -/
def takers (takes : Bool → Char → Bool) : Bool → Text → Nat
  | _, [] => 0
  | sign, c :: cs =>
    if c = '+' then takers takes true cs
    else if c = '-' then takers takes false cs
    else (if takes sign c then 1 else 0) + takers takes sign cs

/-- A change with another argument in the place of its own. -/
def mapArg (f : Char → β → γ) (t : Signed β) : Signed γ := ⟨t.add, t.letter, t.arg.map (f t.letter)⟩

/-- Each letter that takes an argument finds one exactly when there are enough. -/
theorem walk_full_iff (f : Char → β → γ) : ∀ (cs : Text) (sign : Bool) (as : List β),
    (((walk takes sign cs as).map (mapArg f)).all fun t => !takes t.add t.letter || t.arg.isSome) =
      true ↔ takers takes sign cs ≤ as.length
  | [], _, as => by simp [walk, takers]
  | c :: cs, sign, as => by
    rw [walk, takers]
    split
    · exact walk_full_iff f cs true as
    · split
      · exact walk_full_iff f cs false as
      · have ih := walk_full_iff f cs sign
        cases hk : takes sign c with
        | false =>
          simp only [Bool.false_eq_true, if_false, List.map_cons, List.all_cons, mapArg, hk,
            Bool.not_false, Bool.true_or, Bool.true_and, Nat.zero_add]
          exact ih as
        | true =>
          cases as with
          | nil => simp [mapArg, hk]
          | cons a as =>
            simp only [if_true, List.map_cons, List.all_cons, List.tail_cons, List.head?_cons,
              mapArg, Option.map_some, Option.isSome_some, Bool.or_true, Bool.true_and,
              List.length_cons]
            exact (ih as).trans (by omega)

/-- As many arguments are handed out as there are and are asked for. -/
theorem length_argsOf_walk (f : Char → β → γ) : ∀ (cs : Text) (sign : Bool) (as : List β),
    (argsOf ((walk takes sign cs as).map (mapArg f))).length = min (takers takes sign cs) as.length
  | [], _, as => by simp [walk, takers]
  | c :: cs, sign, as => by
    rw [walk, takers]
    split
    · exact length_argsOf_walk f cs true as
    · split
      · exact length_argsOf_walk f cs false as
      · have ih := length_argsOf_walk f cs sign
        cases hk : takes sign c with
        | false => simp [argsOf_cons, mapArg, ih]
        | true =>
          cases as with
          | nil => simp [argsOf_cons, mapArg, ih]
          | cons a as =>
            simp only [if_true, List.map_cons, List.tail_cons, List.head?_cons, mapArg, argsOf_cons,
              Option.map_some, Option.toList_some, List.length_append, List.length_cons,
              List.length_nil]
            rw [ih as]
            omega

/-- The arguments that were handed out are handed out again. -/
theorem walk_argsOf_walk (f : Char → β → γ) : ∀ (cs : Text) (sign : Bool) (as : List β),
    walk takes sign cs (argsOf ((walk takes sign cs as).map (mapArg f))) =
      (walk takes sign cs as).map (mapArg f)
  | [], _, as => by simp [walk]
  | c :: cs, sign, as => by
    rw [walk, walk]
    split
    · exact walk_argsOf_walk f cs true as
    · split
      · exact walk_argsOf_walk f cs false as
      · have ih := walk_argsOf_walk f cs sign
        cases hk : takes sign c with
        | false => simp [argsOf_cons, mapArg, ih]
        | true =>
          cases as with
          | nil =>
            have hnil : argsOf ((walk takes sign cs ([] : List β)).map (mapArg f)) = [] := by
              have := @length_argsOf_walk β γ takes f cs sign []
              exact List.length_eq_zero_iff.mp (by simpa using this)
            have := ih []
            rw [hnil] at this
            simp [argsOf_cons, mapArg, hnil, this]
          | cons a as => simp [argsOf_cons, mapArg, ih]

/-- **A strict reader of the first `k` arguments** finds each letter's own exactly when no more than
`k` letters take one, and there are as many. -/
theorem strictWalk_take_iff (f : Char → β → γ) (k : Nat) (cs : Text) (sign : Bool) (as : List β) :
    strictWalk takes sign cs ((argsOf ((walk takes sign cs as).map (mapArg f))).take k) =
        some ((walk takes sign cs as).map (mapArg f)) ↔
      takers takes sign cs ≤ as.length ∧ takers takes sign cs ≤ k := by
  have hfull := fun bs : List γ => @walk_full_iff γ γ takes (fun _ b => b) cs sign bs
  have hid : ∀ ts : List (Signed γ), ts.map (mapArg fun _ b => b) = ts := fun ts =>
    (List.map_congr_left fun t _ => by simp [mapArg]).trans (List.map_id ts)
  simp only [hid] at hfull
  have hlen := @length_argsOf_walk β γ takes f cs sign as
  constructor
  · intro h
    unfold strictWalk at h
    split at h
    · rename_i hall
      have hle := (hfull _).mp hall
      rw [List.length_take, hlen] at hle
      omega
    · cases h
  · rintro ⟨has, hk⟩
    have htake : (argsOf ((walk takes sign cs as).map (mapArg f))).take k =
        argsOf ((walk takes sign cs as).map (mapArg f)) := List.take_of_length_le (by omega)
    rw [htake, strictWalk, if_pos ((hfull _).mpr (by omega)), walk_argsOf_walk]

end Taken

end Signed

end CLib
