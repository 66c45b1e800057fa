/-
# Ban masks and the three mask lists

`+b`, `+e` and `+I` share one list type and one canonical spelling.  `channel_normalize_mask`
completes a bare host or nick to `nick!user@host`, turns UnrealIRCd's named extbans into this
server's letters and normalises the mask inside a timed, forwarding or quiet ban.  The lists
hold at most a hundred entries of 255 bytes, without duplicates up to case.

`channel_normalize_mask` calls itself, so the model runs on fuel; `normalizeMaskFuel_succ` says
that the fuel `channelNormalizeMask` gives it never runs out.  Of its result the development
needs what makes a mask travel: it is not empty, fits its buffer and has no character in it that
was neither typed nor one of the few the spelling adds (`mem_normalizeMaskFuel`).
-/
import SekurIRCd.Lib.CString

namespace SekurIRCd

open CLib

/-! ## 1. The canonical spelling

What an operator types is completed and respelled before it is stored, so that two spellings of one
mask are one entry. Extbans nest: the mask inside a timed or forwarding ban is normalised too. -/

def chanMaxMasklist : Nat := 100

/-- `mask_body`: the mask inside `~t:<mins>:<mask>`, when the mask is a timed one. -/
def maskBody (mask : Text) : Option Text :=
  if casePrefix "~t:".toList mask then
    let digits := (mask.drop 3).takeWhile Char.isDigit
    match (mask.drop 3).dropWhile Char.isDigit with
    | ':' :: r => if digits = [] then none else some r
    | _ => none
  else none

/-- UnrealIRCd 6's named extbans and our letters. -/
def namedExtbans : List (Text × Text) :=
  [("account:".toList, "a:".toList), ("quiet:".toList, "m:".toList), ("q:".toList, "m:".toList),
    ("realname:".toList, "r:".toList), ("channel:".toList, "j:".toList),
    ("c:".toList, "j:".toList), ("nickchange:".toList, "n:".toList),
    ("certfp:".toList, "S:".toList), ("time:".toList, "t:".toList),
    ("forward:".toList, "f:".toList)]

/-- A named extban with our letter in place of the name. -/
def renameExtban : Text → Option Text
  | '~' :: r => (namedExtbans.find? fun x => casePrefix x.1 r).map fun x =>
      clip 256 ('~' :: (x.2 ++ r.drop x.1.length))
  | _ => none

/-- A mask that is no extban, completed to `nick!user@host`. -/
def completeMask (s : Text) : Text :=
  let bang := decide ('!' ∈ s)
  let at_ := decide ('@' ∈ s)
  if bang && at_ then clip 256 s
  else if at_ then clip 256 ("*!".toList ++ s)
  else if bang then clip 256 (s ++ "@*".toList)
  else if s.any fun c => c == '.' || c == ':' || c == '/' then clip 256 ("*!*@".toList ++ s)
  else clip 256 (s ++ "!*@*".toList)

/-- The optional `~` of an extban, and the text behind it. -/
def splitTilde : Text → Text × Text
  | '~' :: e => (['~'], e)
  | e => ([], e)

/-- Another extban, or a legacy bare one: kept as given. -/
def isExtban (s : Text) : Bool :=
  s.head? == some '~' || caseEq (splitTilde s).2 ['z'] ||
    match (splitTilde s).2 with
    | c :: ':' :: _ => decide (c ∈ "arjAJR".toList)
    | _ => false

/-- A quiet ban or a ban on nick changes: the mask inside is an ordinary one. -/
def isActionBan (e : Text) : Bool := casePrefix "m:".toList e || casePrefix "n:".toList e

/-- `channel_normalize_mask`, with a bound on how often it may call itself. Out of fuel it gives
what a buffer would hold, which `channelNormalizeMask` never comes to. -/
def normalizeMaskFuel : Nat → Text → Text
  | 0, s => clip 256 s
  | fuel + 1, s =>
    match renameExtban s with
    | some tmp => normalizeMaskFuel fuel tmp
    | none =>
      match maskBody s with
      | some body => clip 256 ("~t:".toList ++ intDecimal (atol (s.drop 3)) ++
          ':' :: normalizeMaskFuel fuel body)
      | none =>
        match (if casePrefix "~f:".toList s then strchr ':' (s.drop 3) else none) with
        | some (chan, rest) => clip 256 ("~f:".toList ++ chan ++ ':' :: normalizeMaskFuel fuel rest)
        | none =>
          let (lead, e) := splitTilde s
          if isActionBan e then
            clip 256 (lead ++ e.take 1 ++ ':' :: normalizeMaskFuel fuel (e.drop 2))
          else if isExtban s then clip 256 s
          else completeMask s

/-- `channel_normalize_mask`. -/
def channelNormalizeMask (s : Text) : Text := normalizeMaskFuel (2 * s.length + 2) s

/-! ## 2. The lists

An entry is found up to case. A full list refuses, and so does one that has the entry already. -/

/-- `masklist_add`; `none` is its `-1` for a duplicate or a full list. -/
def masklistAdd (ml : List Text) (mask : Text) : Option (List Text) :=
  if ml.any (caseEq · mask) then none
  else if chanMaxMasklist ≤ ml.length then none
  else some (ml ++ [clip 256 mask])

/-- `masklist_del`; `none` is its `-1` for an entry that is not there. -/
def masklistDel (ml : List Text) (mask : Text) : Option (List Text) :=
  if ml.any (caseEq · mask) then some (ml.eraseP (caseEq · mask)) else none

theorem masklistDel_length {ml ml' : List Text} {mask : Text} (h : masklistDel ml mask = some ml') :
    ml'.length + 1 = ml.length := by
  unfold masklistDel at h
  split at h
  · rename_i hany
    obtain ⟨m, hm, he⟩ := List.any_eq_true.mp hany
    have hlen := List.length_eraseP_of_mem (p := (caseEq · mask)) hm he
    have hpos := List.length_pos_of_mem hm
    rw [← Option.some.inj h]
    omega
  · exact absurd h (by simp)

theorem masklistDel_eq_none {ml : List Text} {mask : Text} (h : masklistDel ml mask = none) :
    ∀ m ∈ ml, caseEq m mask = false := by
  unfold masklistDel at h
  split at h
  · exact absurd h (by simp)
  · rename_i hany
    intro m hm
    by_contra hne
    exact hany (List.any_eq_true.mpr ⟨m, hm, by simpa using hne⟩)

/-! ## 3. The fuel suffices

Each call is on a shorter mask, or on one that has just been renamed and is not renamed again. -/

theorem casePrefix_length {pre s : Text} (h : casePrefix pre s = true) : pre.length ≤ s.length := by
  have hl := congrArg List.length (caseEq_iff.mp h)
  simp only [lower_length, List.length_take] at hl
  omega

theorem maskBody_length {s body : Text} (h : maskBody s = some body) :
    body.length + 2 ≤ s.length := by
  unfold maskBody at h
  split at h
  · rename_i hp
    have h3 := casePrefix_length hp
    have hd := (List.dropWhile_suffix Char.isDigit (l := s.drop 3)).length_le
    have h3' : "~t:".toList.length = 3 := rfl
    simp only at h
    split at h
    · rename_i r heq
      split at h
      · exact absurd h (by simp)
      · obtain rfl := Option.some.inj h
        rw [heq] at hd
        simp only [List.length_cons, List.length_drop] at hd
        omega
    · exact absurd h (by simp)
  · exact absurd h (by simp)

theorem splitTilde_length (s : Text) : (splitTilde s).2.length ≤ s.length := by
  unfold splitTilde
  split <;> simp

theorem isActionBan_length {e : Text} (h : isActionBan e = true) : 2 ≤ e.length := by
  rw [isActionBan, Bool.or_eq_true] at h
  rcases h with h | h <;> exact casePrefix_length h

theorem strchr_length {sep : Char} {s a b : Text} (h : strchr sep s = some (a, b)) :
    a.length + b.length + 1 = s.length := by
  induction s generalizing a with
  | nil => exact absurd h (by simp [strchr])
  | cons c cs ih =>
    simp only [strchr] at h
    split at h
    · obtain ⟨rfl, rfl⟩ := Prod.mk.inj (Option.some.inj h)
      simp
    · obtain ⟨⟨a', b'⟩, ha, he⟩ := Option.map_eq_some_iff.mp h
      obtain ⟨rfl, rfl⟩ := Prod.mk.inj he
      have := ih ha
      simp only [List.length_cons] at this ⊢
      omega

/-- Our letters are two characters long and begin none of the names. -/
theorem namedExtbans_letters : ∀ y ∈ namedExtbans, y.2.length = 2 ∧
    ∀ z ∈ namedExtbans, lower (z.1.take 2) ≠ lower y.2 ∧ 2 ≤ z.1.length := by
  decide

theorem renameExtban_rename {s tmp : Text} (h : renameExtban s = some tmp) :
    renameExtban tmp = none ∧ tmp.length ≤ s.length := by
  unfold renameExtban at h
  split at h
  · rename_i r
    obtain ⟨x, hx, rfl⟩ := Option.map_eq_some_iff.mp h
    have hmem := List.mem_of_find?_eq_some hx
    have hpre : casePrefix x.1 r = true := by simpa using List.find?_some hx
    have hlen := casePrefix_length hpre
    obtain ⟨hx2, hnames⟩ := namedExtbans_letters x hmem
    have hclip : clip 256 ('~' :: (x.2 ++ r.drop x.1.length)) =
        '~' :: clip 255 (x.2 ++ r.drop x.1.length) := rfl
    refine ⟨?_, ?_⟩
    · rw [hclip]
      simp only [renameExtban, Option.map_eq_none_iff, List.find?_eq_none]
      intro z hz hc
      obtain ⟨hne, hz2⟩ := hnames z hz
      refine hne ?_
      have h2 := congrArg (List.take 2) (caseEq_iff.mp hc)
      simp only [lower, ← List.map_take, clip, List.take_take] at h2 ⊢
      rw [h2, show min 2 (min z.1.length (255 - 1)) = 2 by omega,
        List.take_append_of_le_length (by omega), List.take_of_length_le (by omega)]
    · have h1 := (hnames x hmem).2
      have := List.length_take_le' (256 - 1) ('~' :: (x.2 ++ r.drop x.1.length))
      simp only [List.length_cons, List.length_append, List.length_drop] at this ⊢
      unfold clip
      omega
  · exact absurd h (by simp)

/-- How many calls a mask can still lead to. -/
def maskMeasure (s : Text) : Nat := 2 * s.length + if (renameExtban s).isSome then 1 else 0

theorem maskMeasure_lt {s body : Text} (h : body.length + 2 ≤ s.length) :
    maskMeasure body + 2 < maskMeasure s := by
  unfold maskMeasure
  split <;> split <;> omega

/-- **More fuel than the measure makes no difference.** -/
theorem normalizeMaskFuel_succ : ∀ {fuel : Nat} {s : Text}, maskMeasure s < fuel →
    normalizeMaskFuel (fuel + 1) s = normalizeMaskFuel fuel s
  | 0, _, h => absurd h (Nat.not_lt_zero _)
  | fuel + 1, s, h => by
    rw [normalizeMaskFuel, normalizeMaskFuel]
    cases hr : renameExtban s with
    | some tmp =>
      obtain ⟨hn, hlen⟩ := renameExtban_rename hr
      refine normalizeMaskFuel_succ ?_
      unfold maskMeasure at h ⊢
      rw [hr] at h
      rw [hn]
      simp only [Option.isSome_some, Option.isSome_none, if_true, Bool.false_eq_true,
        if_false] at h ⊢
      omega
    | none =>
      simp only
      cases hb : maskBody s with
      | some body =>
        have := maskMeasure_lt (maskBody_length hb)
        simp only
        rw [normalizeMaskFuel_succ (by omega)]
      | none =>
        simp only
        split
        · rename_i chan rest hf
          split at hf
          · rename_i hp
            have h3 := casePrefix_length hp
            have hl := strchr_length hf
            have h3' : "~f:".toList.length = 3 := rfl
            rw [List.length_drop] at hl
            have : maskMeasure rest + 2 < maskMeasure s := maskMeasure_lt (by omega)
            rw [normalizeMaskFuel_succ (by omega)]
          · exact absurd hf (by simp)
        · split
          · rename_i hp
            have h2 := isActionBan_length hp
            have hle := splitTilde_length s
            have : maskMeasure ((splitTilde s).2.drop 2) + 2 < maskMeasure s :=
              maskMeasure_lt (by rw [List.length_drop]; omega)
            rw [normalizeMaskFuel_succ (by omega)]
          · rfl

/-- The recursion of `channel_normalize_mask` always ends before the fuel does. -/
theorem channelNormalizeMask_fuel (s : Text) (k : Nat) :
    normalizeMaskFuel (2 * s.length + 2 + k) s = channelNormalizeMask s := by
  induction k with
  | zero => rfl
  | succ k ih =>
    rw [← ih, ← Nat.add_assoc, normalizeMaskFuel_succ]
    unfold maskMeasure
    split <;> omega

/-! ## 4. What a canonical mask is made of

A mask travels in a line between blanks. What it is made of decides whether it arrives, so the
characters of a canonical mask are traced back to what was typed. -/

/-- The characters the canonical spelling can add to what was typed, besides digits. -/
def maskChars : List Char := "~:*!@-amrjnStf".toList

theorem normalizeMaskFuel_length (fuel : Nat) (s : Text) :
    (normalizeMaskFuel fuel s).length ≤ 255 := by
  induction fuel generalizing s with
  | zero => exact clip_length_le 256 s
  | succ fuel ih =>
    rw [normalizeMaskFuel]
    split
    · exact ih _
    · split
      · exact clip_length_le 256 _
      · split
        · exact clip_length_le 256 _
        · split
          split
          · exact clip_length_le 256 _
          · split
            · exact clip_length_le 256 _
            · unfold completeMask
              simp only
              split
              · exact clip_length_le 256 _
              · split
                · exact clip_length_le 256 _
                · split
                  · exact clip_length_le 256 _
                  · split <;> exact clip_length_le 256 _

theorem channelNormalizeMask_length (s : Text) : (channelNormalizeMask s).length ≤ 255 :=
  normalizeMaskFuel_length _ s

theorem mem_completeMask {s : Text} {c : Char} (h : c ∈ completeMask s) :
    c ∈ s ∨ c ∈ maskChars := by
  have hk : ∀ {a : Text}, c ∈ clip 256 a → c ∈ a := mem_of_mem_clip
  have hadd : ∀ {a : Text}, (∀ d ∈ a, d ∈ maskChars) → c ∈ a → c ∈ s ∨ c ∈ maskChars :=
    fun ha hc => Or.inr (ha c hc)
  unfold completeMask at h
  simp only at h
  split at h
  · exact Or.inl (hk h)
  · split at h
    · exact (List.mem_append.mp (hk h)).elim (hadd (by decide)) Or.inl
    · split at h
      · exact (List.mem_append.mp (hk h)).elim Or.inl (hadd (by decide))
      · split at h
        · exact (List.mem_append.mp (hk h)).elim (hadd (by decide)) Or.inl
        · exact (List.mem_append.mp (hk h)).elim Or.inl (hadd (by decide))

theorem mem_renameExtban {s tmp : Text} (h : renameExtban s = some tmp) {c : Char}
    (hc : c ∈ tmp) : c ∈ s ∨ c ∈ maskChars := by
  unfold renameExtban at h
  split at h
  · obtain ⟨x, hx, rfl⟩ := Option.map_eq_some_iff.mp h
    have hletters : ∀ y ∈ namedExtbans, ∀ d ∈ y.2, d ∈ maskChars := by decide
    rcases List.mem_cons.mp (mem_of_mem_clip hc) with rfl | hc
    · simp
    · rcases List.mem_append.mp hc with hc | hc
      · exact Or.inr (hletters x (List.mem_of_find?_eq_some hx) c hc)
      · exact Or.inl (List.mem_cons_of_mem _ (List.mem_of_mem_drop hc))
  · exact absurd h (by simp)

theorem mem_maskBody {s body : Text} (h : maskBody s = some body) {c : Char} (hc : c ∈ body) :
    c ∈ s := by
  unfold maskBody at h
  split at h
  · simp only at h
    split at h
    · rename_i r heq
      split at h
      · exact absurd h (by simp)
      · obtain rfl := Option.some.inj h
        have hm : c ∈ (s.drop 3).dropWhile Char.isDigit := by rw [heq]; simp [hc]
        exact List.mem_of_mem_drop ((List.dropWhile_suffix _).subset hm)
    · exact absurd h (by simp)
  · exact absurd h (by simp)

theorem mem_strchr {sep : Char} {s a b : Text} (h : strchr sep s = some (a, b)) :
    ∀ c, (c ∈ a → c ∈ s) ∧ (c ∈ b → c ∈ s) := by
  induction s generalizing a with
  | nil => exact absurd h (by simp [strchr])
  | cons d ds ih =>
    intro c
    simp only [strchr] at h
    split at h
    · obtain ⟨rfl, rfl⟩ := Prod.mk.inj (Option.some.inj h)
      exact ⟨by simp, List.mem_cons_of_mem _⟩
    · obtain ⟨⟨a', b'⟩, ha, he⟩ := Option.map_eq_some_iff.mp h
      obtain ⟨rfl, rfl⟩ := Prod.mk.inj he
      obtain ⟨h1, h2⟩ := ih ha c
      refine ⟨fun hc => ?_, fun hc => List.mem_cons_of_mem _ (h2 hc)⟩
      rcases List.mem_cons.mp hc with rfl | hc
      · simp
      · exact List.mem_cons_of_mem _ (h1 hc)

theorem mem_splitTilde {s : Text} {c : Char} :
    (c ∈ (splitTilde s).1 → c ∈ s) ∧ (c ∈ (splitTilde s).2 → c ∈ s) := by
  unfold splitTilde
  split
  · exact ⟨fun h => by simp [List.mem_singleton.mp h], List.mem_cons_of_mem _⟩
  · exact ⟨by simp, id⟩

/-- **Nothing appears in a canonical mask** that was neither typed, nor a digit of a timed ban's
minutes, nor one of `maskChars`. -/
theorem mem_normalizeMaskFuel {fuel : Nat} {s : Text} {c : Char}
    (h : c ∈ normalizeMaskFuel fuel s) : c ∈ s ∨ c.isDigit = true ∨ c ∈ maskChars := by
  induction fuel generalizing s with
  | zero => exact Or.inl (mem_of_mem_clip h)
  | succ fuel ih =>
    have hadd : ∀ {a : Text}, (∀ d ∈ a, d ∈ maskChars) → c ∈ a →
        c ∈ s ∨ c.isDigit = true ∨ c ∈ maskChars := fun ha hc => Or.inr (Or.inr (ha c hc))
    rw [normalizeMaskFuel] at h
    split at h
    · rename_i tmp hr
      rcases ih h with h | h
      · rcases mem_renameExtban hr h with h | h
        · exact Or.inl h
        · exact Or.inr (Or.inr h)
      · exact Or.inr h
    · split at h
      · rename_i body hb
        rcases List.mem_append.mp (mem_of_mem_clip h) with h | h
        · rcases List.mem_append.mp h with h | h
          · exact hadd (by decide) h
          · rcases mem_intDecimal h with rfl | h
            · exact hadd (a := ['-']) (by decide) (by simp)
            · exact Or.inr (Or.inl h)
        · rcases List.mem_cons.mp h with rfl | h
          · exact hadd (a := [':']) (by decide) (by simp)
          · exact (ih h).imp_left (mem_maskBody hb)
      · split at h
        · rename_i chan rest hf
          split at hf
          · have hm := mem_strchr hf c
            rcases List.mem_append.mp (mem_of_mem_clip h) with h | h
            · rcases List.mem_append.mp h with h | h
              · exact hadd (by decide) h
              · exact Or.inl (List.mem_of_mem_drop (hm.1 h))
            · rcases List.mem_cons.mp h with rfl | h
              · exact hadd (a := [':']) (by decide) (by simp)
              · exact (ih h).imp_left fun h => List.mem_of_mem_drop (hm.2 h)
          · exact absurd hf (by simp)
        · split at h
          rename_i lead e hsplit
          have hm : (c ∈ lead → c ∈ s) ∧ (c ∈ e → c ∈ s) := by
            have := mem_splitTilde (s := s) (c := c)
            rwa [hsplit] at this
          split at h
          · rcases List.mem_append.mp (mem_of_mem_clip h) with h | h
            · rcases List.mem_append.mp h with h | h
              · exact Or.inl (hm.1 h)
              · exact Or.inl (hm.2 (List.mem_of_mem_take h))
            · rcases List.mem_cons.mp h with rfl | h
              · exact hadd (a := [':']) (by decide) (by simp)
              · exact (ih h).imp_left fun h => hm.2 (List.mem_of_mem_drop h)
          · split at h
            · exact Or.inl (mem_of_mem_clip h)
            · exact (mem_completeMask h).imp_right Or.inr

end SekurIRCd
