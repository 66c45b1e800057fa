/-
# The flood parameter of `+f`

`+f` takes two forms: `<lines>:<secs>`, and UnrealIRCd's `[5c#C15,10j#R,3k]:15` with one item
per watched kind of event.  `channel_set_flood` checks either, stores the limits and writes the
canonical spelling that MODE lines and bursts carry from then on.

What the rest of the development needs is that the canonical spelling is a fixed point: a server
that reads it from the wire stores exactly what the sender had (`parseFlood_floodParam`).  The
argument follows the item loop.  Everything the loop does to the stored form goes through
`addItem`, one canonical item at a time, and reading a canonical spelling replays the same
sequence of items (`floodItems_canonical`), so it runs into the size limit at the same place or
not at all.
-/
import SekurIRCd.Proto

namespace SekurIRCd

open CLib

/-! ## 1. The stored form -/

/-- `floodprot_t`, without its counters: the spelling and, by type, limit, action and minutes. -/
structure FloodProt where
  spec : Text
  limit : List Int
  action : List Char
  unsetMins : List Int
deriving DecidableEq, Repr

/-- The `+f` fields of a channel: `flood_lines`, `flood_secs` and `fp`. -/
structure Flood where
  lines : Int
  secs : Int
  fp : Option FloodProt
deriving DecidableEq, Repr

/-- What `channel_clear_flood` leaves. -/
def Flood.clear : Flood := ⟨0, 0, none⟩

/-- `FP_TYPES`. -/
def fpTypes : List Char := ['c', 'j', 'k', 'm', 'n', 't', 'r']

/-- The action of each type when none is given. -/
def fpDefaults : List Char := ['C', 'i', 'K', 'm', 'N', 'k', 'k']

/-- The actions each type allows. -/
def fpAllowed : List (List Char) :=
  [['C', 'm', 'M'], ['i', 'R'], ['K'], ['m', 'M'], ['N'], ['k', 'b'], ['k', 'b', 'd']]

/-- `channel_flood_param`. -/
def channelFloodParam (f : Flood) : Text :=
  match f.fp with
  | some fp => fp.spec
  | none => intDecimal f.lines ++ ':' :: intDecimal f.secs

/-! ## 2. Parsing

The two forms of the parameter. In the list form each item is read with `strtol` and letters,
checked against its type, and appended in the canonical spelling; the parameter is refused as soon
as one item is. -/

/-- `"<n>:<secs>"` with n in 1..100 and secs in 1..600 and nothing trailing: the plain form of
`+f`, and `parse_rate` for `+j`. -/
def parseRate (s : Text) : Option (Int × Int) :=
  match strtol s with
  | some (a, ':' :: r) =>
    match strtol r with
    | some (b, []) => if 1 ≤ a ∧ a ≤ 100 ∧ 1 ≤ b ∧ b ≤ 600 then some (a, b) else none
    | _ => none
  | _ => none

/-- One item as it is written: count, type letter, action if given, minutes. -/
structure FloodItem where
  n : Int
  type : Char
  action : Option Char
  mins : Int
deriving DecidableEq, Repr

/-- The optional `#<action>[<mins>]` behind the type letter. -/
def floodAction (s : Text) : Option (Option Char × Int × Text) :=
  match s with
  | '#' :: a :: r =>
    if (r.head?.any Char.isDigit) then
      (strtol r).bind fun (m, r') => if 999 < m then none else some (some a, m, r')
    else some (some a, 0, r)
  | ['#'] => none
  | _ => some (none, 0, s)

/-- One item of the list, and the text behind it and its comma. -/
def floodItem (s : Text) : Option (FloodItem × Text) :=
  match strtol s with
  | some (n, type :: r) =>
    if n < 1 ∨ 999 < n then none
    else (floodAction r).bind fun (action, mins, r) =>
      match r with
      | [] => some (⟨n, type, action, mins⟩, [])
      | ',' :: r => some (⟨n, type, action, mins⟩, r)
      | _ => none
  | _ => none

/-- The canonical text of an item of type `i`. -/
def itemText (i : Nat) (n : Int) (type action : Char) (mins : Int) : Text :=
  if action = fpDefaults.getD i '0' ∧ mins = 0 then intDecimal n ++ [type]
  else if mins ≠ 0 then intDecimal n ++ type :: '#' :: action :: intDecimal mins
  else intDecimal n ++ [type, '#', action]

/-- Storing an item of type `i`; `none` when the spelling outgrows its 96 bytes. -/
def appendItem (f : FloodProt) (i : Nat) (n : Int) (type action : Char) (mins : Int) :
    Option FloodProt :=
  let item := (if f.spec.length ≤ 1 then [] else [',']) ++ itemText i n type action mins
  if 96 ≤ f.spec.length + item.length + 8 then none
  else some
    { spec := f.spec ++ item, limit := f.limit.set i n, action := f.action.set i action,
      unsetMins := f.unsetMins.set i mins }

/-- What one item does to the form being built. An unknown type is ignored; an action outside the
type's list makes the whole parameter invalid, and so does a spelling that outgrows its field. -/
def addItem (f : FloodProt) (it : FloodItem) : Option FloodProt :=
  let i := fpTypes.idxOf it.type
  if fpTypes.length ≤ i then some f
  else
    let action := it.action.getD (fpDefaults.getD i '0')
    if action ∉ fpAllowed.getD i [] then none
    else appendItem f i it.n it.type action it.mins

/-- The item loop, over the text between the brackets. -/
def floodItems : Nat → Text → FloodProt → Option FloodProt
  | _, [], f => some f
  | 0, _ :: _, _ => none
  | fuel + 1, s@(_ :: _), f =>
    (floodItem s).bind fun (it, r) => (addItem f it).bind fun f => floodItems fuel r f

/-- The empty form the loop starts from. -/
def FloodProt.start : FloodProt :=
  ⟨['['], List.replicate 7 0, List.replicate 7 '\x00', List.replicate 7 0⟩

/-- `channel_set_flood`; `none` is its `-1`, with the channel unchanged.  Type `t` is at 5. -/
def parseFlood (param : Text) : Option Flood :=
  match param with
  | '[' :: rest =>
    (strstr [']', ':'] rest).bind fun (body, tail) =>
      match strtol tail with
      | some (secs, []) =>
        if secs < 1 ∨ 999 < secs then none
        else (floodItems body.length body FloodProt.start).bind fun f =>
          if f.spec.length ≤ 1 then none
          else
            let spec := f.spec ++ clip (96 - f.spec.length) (']' :: ':' :: intDecimal secs)
            some ⟨f.limit.getD 5 0, secs, some { f with spec := spec }⟩
      | _ => none
  | _ => (parseRate param).map fun (a, b) => ⟨a, b, none⟩

/-! ## 3. Small numbers -/

theorem strtol_small {z : Int} (h0 : 0 ≤ z) (h : z < 1000) {r : Text}
    (hr : ∀ c ∈ r.head?, c.isDigit = false) : strtol (intDecimal z ++ r) = some (z, r) :=
  strtol_intDecimal (by omega) (by simp only [longMax]; omega) hr

/-- **A rate reads back.** -/
theorem parseRate_print {a b : Int} (ha : 1 ≤ a ∧ a ≤ 100) (hb : 1 ≤ b ∧ b ≤ 600) :
    parseRate (intDecimal a ++ ':' :: intDecimal b) = some (a, b) := by
  have h1 : strtol (intDecimal a ++ ':' :: intDecimal b) = some (a, ':' :: intDecimal b) :=
    strtol_small (by omega) (by omega) (by simp)
  have h2 : strtol (intDecimal b) = some (b, []) := by
    simpa using strtol_small (z := b) (r := []) (by omega) (by omega) (by simp)
  simp only [parseRate, h1, h2]
  rw [if_pos ⟨ha.1, ha.2, hb.1, hb.2⟩]

theorem parseRate_range {s : Text} {a b : Int} (h : parseRate s = some (a, b)) :
    (1 ≤ a ∧ a ≤ 100) ∧ 1 ≤ b ∧ b ≤ 600 := by
  unfold parseRate at h
  split at h
  · split at h
    · split at h
      · rename_i hr
        obtain ⟨rfl, rfl⟩ := Prod.mk.inj (Option.some.inj h)
        exact ⟨⟨hr.1, hr.2.1⟩, hr.2.2⟩
      · exact absurd h (by simp)
    · exact absurd h (by simp)
  · exact absurd h (by simp)

/-! ## 4. Canonical items

Everything the loop stores is a canonical item. The loop is therefore a fold of canonical items,
and what it writes is those items with commas between them. -/

/-- An item as the loop stores it: a known type, an allowed action spelled out, small numbers. -/
structure Canon (it : FloodItem) : Prop where
  n_range : 1 ≤ it.n ∧ it.n ≤ 999
  mins_range : 0 ≤ it.mins ∧ it.mins ≤ 999
  type_mem : it.type ∈ fpTypes
  action_mem : ∃ a, it.action = some a ∧ a ∈ fpAllowed.getD (fpTypes.idxOf it.type) []

/-- The text of a canonical item. -/
def FloodItem.text (it : FloodItem) : Text :=
  itemText (fpTypes.idxOf it.type) it.n it.type
    (it.action.getD (fpDefaults.getD (fpTypes.idxOf it.type) '0')) it.mins

theorem one_le_text_length (it : FloodItem) : 1 ≤ it.text.length := by
  unfold FloodItem.text itemText
  split
  · simp
  · split
    · simp only [List.length_append, List.length_cons]
      omega
    · simp

/-- The item with its action spelled out. -/
def FloodItem.canon (it : FloodItem) : FloodItem :=
  { it with action := some (it.action.getD (fpDefaults.getD (fpTypes.idxOf it.type) '0')) }

theorem addItem_canon (f : FloodProt) (it : FloodItem) : addItem f it.canon = addItem f it := rfl

theorem addItem_unknown {f : FloodProt} {it : FloodItem} (h : it.type ∉ fpTypes) :
    addItem f it = some f := by
  rw [addItem, if_pos (by rw [List.idxOf_eq_length h])]

theorem appendItem_spec {f g : FloodProt} {i : Nat} {n mins : Int} {type action : Char}
    (h : appendItem f i n type action mins = some g) :
    g.spec = f.spec ++ ((if f.spec.length ≤ 1 then [] else [',']) ++
        itemText i n type action mins) ∧ g.spec.length < 88 := by
  unfold appendItem at h
  by_cases hlen : 96 ≤ f.spec.length + ((if f.spec.length ≤ 1 then [] else [',']) ++
      itemText i n type action mins).length + 8
  · rw [if_pos hlen] at h
    exact absurd h (by simp)
  · rw [if_neg hlen] at h
    have hg := Option.some.inj h
    refine ⟨by rw [← hg], ?_⟩
    rw [← hg, List.length_append]
    omega

theorem addItem_spec {f g : FloodProt} {it : FloodItem} (hm : it.type ∈ fpTypes)
    (h : addItem f it = some g) :
    it.canon.action.getD '0' ∈ fpAllowed.getD (fpTypes.idxOf it.type) [] ∧
      g.spec = f.spec ++ ((if f.spec.length ≤ 1 then [] else [',']) ++ it.text) ∧
      g.spec.length < 88 := by
  rw [addItem, if_neg (by have := List.idxOf_lt_length_of_mem hm; omega)] at h
  simp only at h
  split at h
  · exact absurd h (by simp)
  · rename_i ha
    exact ⟨by simpa [FloodItem.canon] using ha, appendItem_spec h⟩

theorem floodAction_mins {s r : Text} {a : Option Char} {m : Int}
    (h : floodAction s = some (a, m, r)) : (0 ≤ m ∧ m ≤ 999) ∧ r.length ≤ s.length := by
  unfold floodAction at h
  split at h
  · rename_i c r'
    split at h
    · rename_i hd
      obtain ⟨d, tl, rfl⟩ : ∃ d tl, r' = d :: tl := by cases r' <;> simp_all
      obtain ⟨⟨m', r''⟩, hs, h⟩ := Option.bind_eq_some_iff.mp h
      simp only at h
      split at h
      · exact absurd h (by simp)
      · have hlt := strtol_rest_length hs
        have hnn := strtol_nonneg_of_digit (by simpa using hd) hs
        simp only [Option.some.injEq, Prod.mk.injEq] at h
        obtain ⟨-, rfl, rfl⟩ := h
        simp only [List.length_cons] at hlt ⊢
        omega
    · simp only [Option.some.injEq, Prod.mk.injEq] at h
      obtain ⟨-, rfl, rfl⟩ := h
      simp only [List.length_cons]
      omega
  · exact absurd h (by simp)
  · simp only [Option.some.injEq, Prod.mk.injEq] at h
    obtain ⟨-, rfl, rfl⟩ := h
    omega

theorem floodItem_spec {s r : Text} {it : FloodItem} (h : floodItem s = some (it, r)) :
    (1 ≤ it.n ∧ it.n ≤ 999) ∧ (0 ≤ it.mins ∧ it.mins ≤ 999) ∧ r.length < s.length := by
  unfold floodItem at h
  split at h
  · rename_i n type r' hs
    have hlt := strtol_rest_length hs
    split at h
    · exact absurd h (by simp)
    · rename_i hn
      obtain ⟨⟨a, m, r''⟩, ha, h⟩ := Option.bind_eq_some_iff.mp h
      obtain ⟨hm, hle⟩ := floodAction_mins ha
      simp only [List.length_cons] at hlt
      simp only at h
      split at h
      · obtain ⟨rfl, rfl⟩ := Prod.mk.inj (Option.some.inj h)
        simp only [List.length_nil] at *
        omega
      · obtain ⟨rfl, rfl⟩ := Prod.mk.inj (Option.some.inj h)
        simp only [List.length_cons] at *
        omega
      · exact absurd h (by simp)
  · exact absurd h (by simp)

/-- **The loop is a fold of canonical items.** -/
theorem floodItems_fold : ∀ {fuel : Nat} {s : Text} {f g : FloodProt},
    floodItems fuel s f = some g →
      ∃ its : List FloodItem, (∀ it ∈ its, Canon it) ∧ its.foldlM addItem f = some g
  | _, [], f, g, h => ⟨[], by simp, by simpa [floodItems] using h⟩
  | 0, _ :: _, _, _, h => absurd h (by simp [floodItems])
  | fuel + 1, c :: cs, f, g, h => by
    obtain ⟨⟨it, r⟩, hit, h⟩ := Option.bind_eq_some_iff.mp h
    obtain ⟨f', hadd, h⟩ := Option.bind_eq_some_iff.mp h
    obtain ⟨its, hcan, hfold⟩ := floodItems_fold h
    obtain ⟨hn, hm, -⟩ := floodItem_spec hit
    by_cases ht : it.type ∈ fpTypes
    · have hact := (addItem_spec ht hadd).1
      have hit' : Canon it.canon :=
        ⟨hn, hm, ht, _, rfl, by simpa [FloodItem.canon] using hact⟩
      refine ⟨it.canon :: its, ?_, ?_⟩
      · intro x hx
        rcases List.mem_cons.mp hx with rfl | hx
        · exact hit'
        · exact hcan x hx
      · rw [List.foldlM_cons, addItem_canon, hadd]
        exact hfold
    · rw [addItem_unknown ht] at hadd
      obtain rfl := Option.some.inj hadd
      exact ⟨its, hcan, hfold⟩

/-- What the fold wrote, from a form that already holds an item. -/
theorem fold_spec_more : ∀ {its : List FloodItem} {f g : FloodProt}, (∀ it ∈ its, Canon it) →
    1 < f.spec.length → f.spec.length < 88 → its.foldlM addItem f = some g →
      g.spec = f.spec ++ (its.map FloodItem.text).flatMap (fun w => ',' :: w) ∧
        g.spec.length < 88
  | [], f, g, _, _, hl, h => by
    simp only [List.foldlM_nil, Option.pure_def, Option.some.injEq] at h
    rw [← h]
    exact ⟨by simp, hl⟩
  | it :: its, f, g, hc, h1, hl, h => by
    rw [List.foldlM_cons] at h
    obtain ⟨f', hadd, h⟩ := Option.bind_eq_some_iff.mp h
    obtain ⟨-, hspec, hlen⟩ := addItem_spec (hc it (by simp)).type_mem hadd
    rw [if_neg (by omega)] at hspec
    have hf' : 1 < f'.spec.length := by rw [hspec, List.length_append]; omega
    obtain ⟨hg, hgl⟩ := fold_spec_more (fun x hx => hc x (List.mem_cons_of_mem _ hx)) hf' hlen h
    exact ⟨by rw [hg, hspec]; simp, hgl⟩

/-- What it wrote from the start: the items with commas between them. -/
theorem fold_spec {its : List FloodItem} {g : FloodProt} (hc : ∀ it ∈ its, Canon it)
    (h : its.foldlM addItem FloodProt.start = some g) :
    g.spec = '[' :: joinSep ',' (its.map FloodItem.text) ∧ g.spec.length < 88 := by
  cases its with
  | nil =>
    simp only [List.foldlM_nil, Option.pure_def, Option.some.injEq] at h
    rw [← h]
    exact ⟨rfl, by decide⟩
  | cons it its =>
    rw [List.foldlM_cons] at h
    obtain ⟨f', hadd, h⟩ := Option.bind_eq_some_iff.mp h
    obtain ⟨-, hspec, hlen⟩ := addItem_spec (hc it (by simp)).type_mem hadd
    have hstart : FloodProt.start.spec = ['['] := rfl
    rw [hstart, if_pos (by simp), List.nil_append] at hspec
    have htext := one_le_text_length it
    have hf' : 1 < f'.spec.length := by
      rw [hspec, List.length_append, List.length_singleton]
      omega
    obtain ⟨hg, hgl⟩ := fold_spec_more (fun x hx => hc x (List.mem_cons_of_mem _ hx)) hf' hlen h
    refine ⟨?_, hgl⟩
    rw [hg, hspec, List.map_cons, joinSep_eq_flatMap]
    simp

/-! ## 5. Reading a canonical spelling

A canonical item reads back as itself, so reading what a fold has written is the same fold again. -/

theorem not_isDigit_of_mem_fpTypes {c : Char} (h : c ∈ fpTypes) : c.isDigit = false := by
  revert c
  decide

/-- **A canonical item reads back as itself**, whatever follows its comma. -/
theorem floodItem_text {it : FloodItem} (hc : Canon it) {rest : Text}
    (hrest : rest = [] ∨ ∃ r, rest = ',' :: r) :
    ∃ it', floodItem (it.text ++ rest) = some (it', rest.tail) ∧
      ∀ f, addItem f it' = addItem f it := by
  obtain ⟨n, type, action, mins⟩ := it
  obtain ⟨hn, hm, ht, a, rfl, ha⟩ := hc
  simp only at hn hm ht ha
  have htd := not_isDigit_of_mem_fpTypes ht
  have hdig : ∀ c ∈ rest.head?, c.isDigit = false := by
    rcases hrest with rfl | ⟨r, rfl⟩
    · simp
    · simp
  have hnum : ∀ tl, strtol (intDecimal n ++ type :: tl) = some (n, type :: tl) := fun tl =>
    strtol_small (by omega) (by omega) (by simpa using htd)
  have hnr : ¬ (n < 1 ∨ 999 < n) := by omega
  simp only [FloodItem.text, itemText, Option.getD_some]
  split
  · rename_i hdef
    obtain ⟨rfl, rfl⟩ := hdef
    refine ⟨⟨n, type, none, 0⟩, ?_, fun f => rfl⟩
    have hact : floodAction rest = some (none, 0, rest) := by
      rcases hrest with rfl | ⟨r, rfl⟩ <;> rfl
    rw [List.append_assoc, List.singleton_append, floodItem, hnum]
    simp only [if_neg hnr, hact, Option.bind_some]
    rcases hrest with rfl | ⟨r, rfl⟩ <;> rfl
  · split
    · rename_i hm0
      refine ⟨⟨n, type, some a, mins⟩, ?_, fun f => rfl⟩
      have hmn : strtol (intDecimal mins ++ rest) = some (mins, rest) :=
        strtol_small hm.1 (by omega) hdig
      have hhead : ((intDecimal mins ++ rest).head?.any Char.isDigit) = true := by
        rw [intDecimal_of_nonneg hm.1]
        obtain ⟨d, ds, hd⟩ := List.exists_cons_of_ne_nil (decimal_ne_nil mins.toNat)
        have : d.isDigit = true := isDigit_of_mem_decimal (n := mins.toNat) (by rw [hd]; simp)
        simp [hd, this]
      have hact : floodAction ('#' :: a :: (intDecimal mins ++ rest)) = some (some a, mins, rest) := by
        have : ¬ 999 < mins := by omega
        simp only [floodAction, hhead, hmn, if_true, Option.bind_some, if_neg this]
      rw [List.append_assoc, List.cons_append, List.cons_append, List.cons_append, floodItem, hnum]
      simp only [if_neg hnr, hact, Option.bind_some]
      rcases hrest with rfl | ⟨r, rfl⟩ <;> rfl
    · rename_i hm0
      simp only [ne_eq, not_not] at hm0
      subst hm0
      refine ⟨⟨n, type, some a, 0⟩, ?_, fun f => rfl⟩
      have hact : floodAction ('#' :: a :: rest) = some (some a, 0, rest) := by
        rcases hrest with rfl | ⟨r, rfl⟩ <;> simp [floodAction]
      rw [List.append_assoc]
      simp only [List.cons_append, List.nil_append]
      rw [floodItem, hnum]
      simp only [if_neg hnr, hact, Option.bind_some]
      rcases hrest with rfl | ⟨r, rfl⟩ <;> rfl

/-- **Reading a canonical spelling replays its items.** -/
theorem floodItems_canonical : ∀ {its : List FloodItem} {fuel : Nat} (f : FloodProt),
    (∀ it ∈ its, Canon it) → (joinSep ',' (its.map FloodItem.text)).length ≤ fuel →
      floodItems fuel (joinSep ',' (its.map FloodItem.text)) f = its.foldlM addItem f
  | [], _, f, _, _ => by simp [floodItems]
  | it :: its, fuel, f, hc, hfuel => by
    obtain ⟨rest, hs, hrest, htail⟩ : ∃ rest,
        joinSep ',' ((it :: its).map FloodItem.text) = it.text ++ rest ∧
          (rest = [] ∨ ∃ r, rest = ',' :: r) ∧
          rest.tail = joinSep ',' (its.map FloodItem.text) := by
      cases its with
      | nil => exact ⟨[], by simp, Or.inl rfl, rfl⟩
      | cons v vs => exact ⟨',' :: joinSep ',' ((v :: vs).map FloodItem.text),
          joinSep_cons _ (by simp), Or.inr ⟨_, rfl⟩, rfl⟩
    obtain ⟨it', hit, hadd⟩ := floodItem_text (hc it (by simp)) hrest
    have hlt := (floodItem_spec hit).2.2
    rw [hs] at hfuel ⊢
    obtain ⟨c, cs, hcons⟩ := List.exists_cons_of_ne_nil (l := it.text ++ rest)
      (by intro h; rw [h] at hlt; simp at hlt)
    obtain ⟨fuel, rfl⟩ : ∃ k, fuel = k + 1 := ⟨fuel - 1, by omega⟩
    rw [hcons] at hit hlt hfuel ⊢
    rw [floodItems, hit, List.foldlM_cons, Option.bind_some]
    simp only [hadd f]
    cases hf : addItem f it with
    | none => rfl
    | some f' =>
      rw [Option.bind_some, htail]
      simp only [Option.bind_eq_bind, Option.bind_some]
      rw [htail] at hlt
      exact floodItems_canonical f' (fun x hx => hc x (List.mem_cons_of_mem _ hx)) (by omega)

theorem mem_text {it : FloodItem} (hc : Canon it) {c : Char} (h : c ∈ it.text) :
    c = '-' ∨ c.isDigit = true ∨ c ∈ fpTypes ∨ c ∈ fpAllowed.flatten ∨ c = '#' := by
  obtain ⟨n, type, action, mins⟩ := it
  obtain ⟨-, -, ht, a, rfl, ha⟩ := hc
  have hall : a ∈ fpAllowed.flatten := by
    simp only [List.getD_eq_getElem?_getD] at ha
    cases hg : fpAllowed[fpTypes.idxOf type]? with
    | none => simp [hg] at ha
    | some l =>
      rw [hg] at ha
      exact List.mem_flatten.mpr ⟨l, List.mem_of_getElem? hg, ha⟩
  have hnum : ∀ {z : Int}, c ∈ intDecimal z → c = '-' ∨ c.isDigit = true := mem_intDecimal
  simp only [FloodItem.text, itemText, Option.getD_some] at h
  split at h
  · rcases List.mem_append.mp h with h | h
    · rcases hnum h with h | h <;> simp [h]
    · rw [List.mem_singleton.mp h]; exact Or.inr (Or.inr (Or.inl ht))
  · split at h
    · rcases List.mem_append.mp h with h | h
      · rcases hnum h with h | h <;> simp [h]
      · simp only [List.mem_cons] at h
        rcases h with rfl | rfl | rfl | h
        · exact Or.inr (Or.inr (Or.inl ht))
        · simp
        · exact Or.inr (Or.inr (Or.inr (Or.inl hall)))
        · rcases hnum h with h | h <;> simp [h]
    · rcases List.mem_append.mp h with h | h
      · rcases hnum h with h | h <;> simp [h]
      · simp only [List.mem_cons, List.not_mem_nil, or_false] at h
        rcases h with rfl | rfl | rfl
        · exact Or.inr (Or.inr (Or.inl ht))
        · simp
        · exact Or.inr (Or.inr (Or.inr (Or.inl hall)))

theorem mem_joined {its : List FloodItem} (hc : ∀ it ∈ its, Canon it) {c : Char}
    (h : c ∈ joinSep ',' (its.map FloodItem.text)) :
    c = ',' ∨ c = '-' ∨ c.isDigit = true ∨ c ∈ fpTypes ∨ c ∈ fpAllowed.flatten ∨ c = '#' := by
  rcases mem_joinSep h with h | ⟨w, hw, hcw⟩
  · exact Or.inl h
  · obtain ⟨it, hit, rfl⟩ := List.mem_map.mp hw
    exact Or.inr (mem_text (hc it hit) hcw)

/-- Anything that is not one of those characters is not in a canonical spelling. -/
theorem notMem_joined {its : List FloodItem} (hc : ∀ it ∈ its, Canon it) {c : Char}
    (h : c ≠ ',' ∧ c ≠ '-' ∧ c.isDigit = false ∧ c ∉ fpTypes ∧ c ∉ fpAllowed.flatten ∧ c ≠ '#') :
    c ∉ joinSep ',' (its.map FloodItem.text) := by
  intro hm
  obtain ⟨h1, h2, h3, h4, h5, h6⟩ := h
  rcases mem_joined hc hm with h | h | h | h | h | h
  · exact h1 h
  · exact h2 h
  · rw [h3] at h; exact absurd h (by simp)
  · exact h4 h
  · exact h5 h
  · exact h6 h

/-! ## 6. The canonical spelling is a fixed point

The fold may stop for want of room in the spelling; replayed, it has written just as much at each
item, so it stops at the same one or at none. -/

/-- What a successful parse stored. -/
inductive Parsed : Flood → Prop
  | rate {a b : Int} : 1 ≤ a ∧ a ≤ 100 → 1 ≤ b ∧ b ≤ 600 → Parsed ⟨a, b, none⟩
  | items {its : List FloodItem} {g : FloodProt} {secs : Int} : (∀ it ∈ its, Canon it) →
      its ≠ [] → its.foldlM addItem FloodProt.start = some g → 1 ≤ secs ∧ secs ≤ 999 →
      Parsed ⟨g.limit.getD 5 0, secs, some { g with spec := '[' ::
        (joinSep ',' (its.map FloodItem.text) ++ ']' :: ':' :: intDecimal secs) }⟩

theorem parseFlood_of_not_bracket {p : Text} (h : ∀ c ∈ p.head?, c ≠ '[') :
    parseFlood p = (parseRate p).map fun (a, b) => ⟨a, b, none⟩ := by
  cases p with
  | nil => rfl
  | cons c cs =>
    have hc : c ≠ '[' := h c (by simp)
    unfold parseFlood
    split
    · rename_i heq
      exact absurd (List.cons.inj heq).1 hc
    · rfl

theorem clip_secs {n : Nat} {secs : Int} (hn : n < 88) (hs : 1 ≤ secs ∧ secs ≤ 999) :
    clip (96 - n) (']' :: ':' :: intDecimal secs) = ']' :: ':' :: intDecimal secs := by
  have := intDecimal_length_le (z := secs) (k := 3) (by decide) (by omega) (by omega)
  exact clip_of_fits (by simp only [List.length_cons]; omega)

theorem parseFlood_parsed {p : Text} {f : Flood} (h : parseFlood p = some f) : Parsed f := by
  by_cases hb : ∀ c ∈ p.head?, c ≠ '['
  · rw [parseFlood_of_not_bracket hb] at h
    obtain ⟨⟨a, b⟩, hr, rfl⟩ := Option.map_eq_some_iff.mp h
    obtain ⟨ha, hb⟩ := parseRate_range hr
    exact .rate ha hb
  · obtain ⟨rest, rfl⟩ : ∃ rest, p = '[' :: rest := by
      cases p with
      | nil => simp at hb
      | cons c cs => exact ⟨cs, by simpa using hb⟩
    obtain ⟨⟨body, tail⟩, -, h⟩ := Option.bind_eq_some_iff.mp h
    simp only at h
    split at h
    · rename_i secs hsecs
      split at h
      · exact absurd h (by simp)
      · rename_i hrange
        obtain ⟨g, hg, h⟩ := Option.bind_eq_some_iff.mp h
        obtain ⟨its, hcan, hfold⟩ := floodItems_fold hg
        obtain ⟨hspec, hlen⟩ := fold_spec hcan hfold
        have hs : 1 ≤ secs ∧ secs ≤ 999 := by omega
        split at h
        · exact absurd h (by simp)
        · rename_i hne
          have hf := Option.some.inj h
          rw [clip_secs hlen hs, hspec, List.cons_append] at hf
          rw [← hf]
          refine .items hcan ?_ hfold hs
          rintro rfl
          rw [hspec] at hne
          simp at hne
    · exact absurd h (by simp)

/-- **What a server stored, another stores when it reads the spelling.** Limits, actions and
removal times come back, and the spelling itself. -/
theorem Parsed.parse {f : Flood} (h : Parsed f) : parseFlood (channelFloodParam f) = some f := by
  cases h with
  | @rate a b ha hb =>
    have hp : parseFlood (intDecimal a ++ ':' :: intDecimal b) =
        (parseRate (intDecimal a ++ ':' :: intDecimal b)).map fun (a, b) => ⟨a, b, none⟩ := by
      refine parseFlood_of_not_bracket fun c hc => ?_
      obtain ⟨d, ds, hd⟩ := List.exists_cons_of_ne_nil (decimal_ne_nil a.toNat)
      have hdig : d.isDigit = true := isDigit_of_mem_decimal (n := a.toNat) (by rw [hd]; simp)
      rw [intDecimal_of_nonneg (by omega), hd, List.cons_append, List.head?_cons, Option.mem_def,
        Option.some.injEq] at hc
      rintro rfl
      rw [hc] at hdig
      exact absurd hdig (by decide)
    rw [channelFloodParam, hp, parseRate_print ha hb]
    rfl
  | @items its g secs hcan hne hfold hs =>
    obtain ⟨hspec, hlen⟩ := fold_spec hcan hfold
    have hbr : ']' ∉ joinSep ',' (its.map FloodItem.text) :=
      notMem_joined hcan (by decide)
    have hcut : strstr [']', ':'] (joinSep ',' (its.map FloodItem.text) ++
        ']' :: ':' :: intDecimal secs) =
          some (joinSep ',' (its.map FloodItem.text), intDecimal secs) := by
      rw [strstr_skip hbr]
      simp [strstr, List.isPrefixOf]
    have hsecs : strtol (intDecimal secs) = some (secs, []) := by
      simpa using strtol_small (z := secs) (r := []) (by omega) (by omega) (by simp)
    have hloop := floodItems_canonical FloodProt.start hcan (le_refl _)
    have hclip : clip (96 - g.spec.length) (']' :: ':' :: intDecimal secs) =
        ']' :: ':' :: intDecimal secs := clip_secs hlen hs
    have hlong : ¬ g.spec.length ≤ 1 := by
      obtain ⟨it, its', rfl⟩ := List.exists_cons_of_ne_nil hne
      have htext := one_le_text_length it
      rw [hspec, List.map_cons, joinSep_eq_flatMap]
      simp only [List.length_cons, List.length_append]
      omega
    rw [hspec] at hlong hclip
    simp only [channelFloodParam, parseFlood, hcut, Option.bind_some, hsecs,
      if_neg (show ¬ (secs < 1 ∨ 999 < secs) by omega), hloop, hfold, hspec, if_neg hlong, hclip,
      List.cons_append]

/-- **The canonical spelling is a fixed point of `channel_set_flood`.** -/
theorem parseFlood_floodParam {p : Text} {f : Flood} (h : parseFlood p = some f) :
    parseFlood (channelFloodParam f) = some f :=
  (parseFlood_parsed h).parse

theorem Parsed.mem {f : Flood} (h : Parsed f) {c : Char} (hc : c ∈ channelFloodParam f) :
    c.isDigit = true ∨ c ∈ fpTypes ∨ c ∈ fpAllowed.flatten ∨
      c ∈ [',', '-', '#', '[', ']', ':'] := by
  have hnum : ∀ {z : Int}, c ∈ intDecimal z → c.isDigit = true ∨ c = '-' := fun hz =>
    (mem_intDecimal hz).symm
  cases h with
  | @rate a b ha hb =>
    rcases List.mem_append.mp hc with h | h
    · rcases hnum h with h | h <;> simp [h]
    · rcases List.mem_cons.mp h with h | h
      · simp [h]
      · rcases hnum h with h | h <;> simp [h]
  | @items its g secs hcan hne hfold hs =>
    rcases List.mem_cons.mp hc with h | h
    · simp [h]
    · rcases List.mem_append.mp h with h | h
      · rcases mem_joined hcan h with h | h | h | h | h | h <;> simp [h]
      · simp only [List.mem_cons] at h
        rcases h with h | h | h
        · simp [h]
        · simp [h]
        · rcases hnum h with h | h <;> simp [h]

theorem Parsed.length_lt {f : Flood} (h : Parsed f) : (channelFloodParam f).length < 93 := by
  cases h with
  | @rate a b ha hb =>
    have h1 := intDecimal_length_le (z := a) (k := 3) (by decide) (by omega) (by omega)
    have h2 := intDecimal_length_le (z := b) (k := 3) (by decide) (by omega) (by omega)
    simp only [channelFloodParam, List.length_append, List.length_cons]
    omega
  | @items its g secs hcan hne hfold hs =>
    have h1 := intDecimal_length_le (z := secs) (k := 3) (by decide) (by omega) (by omega)
    obtain ⟨hspec, hlen⟩ := fold_spec hcan hfold
    rw [hspec] at hlen
    simp only [channelFloodParam, List.length_append, List.length_cons] at hlen ⊢
    omega

/-- **A canonical spelling travels as it is.** -/
theorem Parsed.plain {f : Flood} (h : Parsed f) : Plain (channelFloodParam f) := by
  have hnot : ∀ c : Char, c.isDigit = false ∧ c ∉ fpTypes ∧ c ∉ fpAllowed.flatten ∧
      c ∉ [',', '-', '#', '[', ']', ':'] → c ∉ channelFloodParam f := by
    rintro c ⟨h1, h2, h3, h4⟩ hm
    rcases h.mem hm with h | h | h | h
    · rw [h1] at h; exact absurd h (by simp)
    · exact h2 h
    · exact h3 h
    · exact h4 h
  have hlen := h.length_lt
  refine ⟨?_, ?_, hnot ' ' (by decide), hnot '\r' (by decide), hnot '\n' (by decide), by omega⟩
  · cases h <;> simp [channelFloodParam, intDecimal_ne_nil]
  · cases h with
    | @rate a b ha hb =>
      obtain ⟨d, ds, hd⟩ := List.exists_cons_of_ne_nil (decimal_ne_nil a.toNat)
      have hdig : d.isDigit = true := isDigit_of_mem_decimal (n := a.toNat) (by rw [hd]; simp)
      simp only [channelFloodParam, intDecimal_of_nonneg (show 0 ≤ a by omega), hd,
        List.cons_append, List.head?_cons, Option.mem_def, Option.some.injEq]
      rintro c rfl rfl
      exact absurd hdig (by decide)
    | items => simp [channelFloodParam]

end SekurIRCd
