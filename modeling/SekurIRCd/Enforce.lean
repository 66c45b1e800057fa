/-
# Lines in force

A line is matched twice: against whoever comes (`server_kline_match`), and, when it is added, against
whoever is there (`server_kline_enforce`).  Both look at the address, at user@address and at
user@host, and let an E-line stand in for all but a Z-line.

They agree on every client, and the list keeps one line for each mask and type, with the latest
expiry, as long as masks fit into an entry, and no longer (`lines_agree`).  The mask of an entry is cut at 255
bytes, and what is enforced and compared is the mask as it came: one that is longer, which only
another server can send, is added again each time (`long_mask_twice`).
-/
import SekurIRCd.Address
import SekurIRCd.BanExpiry

namespace SekurIRCd

open CLib

/-! ## 1. Matching a line

Both sides are the same test with other things around it: admission walks the lines for one client,
enforcement walks the clients for one line. -/

section Match

variable (inet : IpText)

/-- `irc_host_mask_match`. -/
def ircHostMaskMatch (user host mask : Text) : Bool :=
  if '/' ∈ maskHost mask then
    let um := clip 128 (if '@' ∈ mask then (maskUser mask).dropLast else ['*'])
    ircGlobMatch um user && ircIpMaskMatch inet (maskHost mask) host
  else
    let full := clip 451 (user ++ '@' :: host)
    if '@' ∈ mask then ircGlobMatch mask full else ircGlobMatch (clip 320 ('*' :: '@' :: mask)) full

/-- What a line is matched against. -/
structure LineSubject where
  ip : Text
  user : Text
  host : Text
  identConfirmed : Bool
deriving DecidableEq

/-- `server_line_mask_hits`. -/
def serverLineMaskHits (mask : Text) (t : LineType) (s : LineSubject) : Bool :=
  if s.ip ≠ [] ∧ ircIpMaskMatch inet mask s.ip then true
  else if t = .Z then false
  else if s.ip ≠ [] ∧ '@' ∈ mask ∧ ircHostMaskMatch inet s.user s.ip mask then true
  else if s.host = [] then false
  else if ircHostMaskMatch inet s.user s.host mask then true
  else if s.user ≠ [] ∧ s.identConfirmed = false ∧ s.user.head? ≠ some '~' then
    ircHostMaskMatch inet (clip 66 ('~' :: s.user)) s.host mask
  else false

/-- An E-line that hits. -/
def elineHits (s : LineSubject) (e : KLine) : Bool :=
  decide (e.lineType = .E) && serverLineMaskHits inet e.mask .K s

/-- `server_client_eline_exempt`. -/
def serverClientElineExempt (lines : List KLine) (s : LineSubject) : Bool :=
  lines.any (elineHits inet s)

/-- What the loop of `server_kline_match` stops at. -/
def refuses (lines : List KLine) (s : LineSubject) (k : KLine) : Bool :=
  if k.lineType = .S ∨ k.lineType = .E then false
  else if serverLineMaskHits inet k.mask k.lineType s = false then false
  else if k.lineType ≠ .Z then !lines.any (elineHits inet s)
  else true

/-- `server_kline_match`: the reason, or NULL. The E-lines are asked only when a K-, G- or Z-line
hits, and a Z-line does not ask them. -/
def serverKlineMatch (lines : List KLine) (s : LineSubject) : Option Text :=
  (lines.find? (refuses inet lines s)).map fun k =>
    clip 300 (k.lineType.letter ++ "-Lined: ".toList ++ k.reason)

/-- A client, as far as lines go. A client that quits is still there until it is removed, and is
not disconnected twice. -/
structure LineClient where
  id : Nat
  /-- There is a socket. -/
  connected : Bool
  quitting : Bool
  quitReason : Text
  subject : LineSubject
deriving DecidableEq

/-- `client_mark_quit`, with the reason. -/
def LineClient.quit (c : LineClient) (reason : Text) : LineClient :=
  { c with quitReason := clip 256 reason, quitting := true }

/-- The client is one that `server_kline_enforce` disconnects. -/
def enforced (lines : List KLine) (mask : Text) (t : LineType) (except : Option Nat)
    (c : LineClient) : Bool :=
  if some c.id = except ∨ c.connected = false ∨ c.quitting then false
  else if serverLineMaskHits inet mask t c.subject = false then false
  else if t ≠ .Z ∧ serverClientElineExempt inet lines c.subject then false
  else true

/-- `server_kline_enforce`: how many were disconnected, and the clients. `except` is spared, and so
is whoever is quitting already. -/
def serverKlineEnforce (lines : List KLine) (mask : Text) (t : LineType) (reason : Text)
    (except : Option Nat) (clients : List LineClient) : Nat × List LineClient :=
  (clients.countP (enforced inet lines mask t except),
    clients.map fun c => if enforced inet lines mask t except c then c.quit reason else c)

/-! ## 2. Enforcement and admission

A line that is added is enforced on the clients that are there as it would be on them if they came
now. -/

/-- The E-lines in force. -/
def elines (lines : List KLine) : List KLine := lines.filter fun e => decide (e.lineType = .E)

/-- A client that can be disconnected. -/
def LineClient.present (except : Option Nat) (c : LineClient) : Bool :=
  decide (some c.id ≠ except) && c.connected && !c.quitting

variable {inet}

omit inet in
theorem isSome_find?_eq {p : KLine → Bool} (l : List KLine) : (l.find? p).isSome = l.any p := by
  rw [Bool.eq_iff_iff, List.find?_isSome, List.any_eq_true]

theorem any_elines (lines : List KLine) (s : LineSubject) :
    (elines lines).any (elineHits inet s) = lines.any (elineHits inet s) := by
  rw [elines, List.any_filter]
  congr 1
  funext e
  by_cases h : e.lineType = .E
  · simp [h]
  · simp [h, elineHits]

/-- **A ban alone**, with the E-lines, refuses whom it hits and no E-line exempts. -/
theorem match_alone (lines : List KLine) (s : LineSubject) {k : KLine} (hk : k.lineType.isBan = true) :
    (serverKlineMatch inet (k :: elines lines) s).isSome =
      (serverLineMaskHits inet k.mask k.lineType s &&
        (decide (k.lineType = .Z) || !serverClientElineExempt inet lines s)) := by
  have hban : k.lineType ≠ .S ∧ k.lineType ≠ .E := of_decide_eq_true hk
  have hnone : ∀ all, (elines lines).any (refuses inet all s) = false := by
    intro all
    rw [List.any_eq_false]
    intro e he
    have ht : e.lineType = .E := of_decide_eq_true (List.mem_filter.mp he).2
    rw [refuses, if_pos (Or.inr ht)]
    exact Bool.false_ne_true
  have hown : elineHits inet s k = false := by
    rw [elineHits, decide_eq_false hban.2, Bool.false_and]
  rw [serverKlineMatch, Option.isSome_map, isSome_find?_eq, List.any_cons, hnone,
    Bool.or_false, refuses, if_neg (not_or.mpr hban), List.any_cons, hown, Bool.false_or, any_elines,
    serverClientElineExempt]
  cases serverLineMaskHits inet k.mask k.lineType s
  · rfl
  · by_cases hz : k.lineType = .Z
    · simp [hz]
    · simp [hz]

/-- A client is disconnected if the ban as it is listed would refuse it. -/
theorem enforced_eq (lines : List KLine) {mask : Text} (hmask : mask.length < 256) {t : LineType}
    (ht : t.isBan = true) (reason setBy : Text) (expiresAt : Nat) (except : Option Nat)
    (c : LineClient) : enforced inet lines mask t except c = (c.present except &&
      (serverKlineMatch inet (⟨clip 256 mask, reason, setBy, t, expiresAt⟩ :: elines lines)
        c.subject).isSome) := by
  rw [match_alone lines c.subject (k := ⟨clip 256 mask, reason, setBy, t, expiresAt⟩) ht]
  simp only [clip_of_fits hmask]
  rw [enforced, LineClient.present]
  by_cases hid : some c.id = except
  · simp [hid]
  · cases c.connected
    · simp
    · cases c.quitting
      · cases serverLineMaskHits inet mask t c.subject
        · simp [hid]
        · by_cases hz : t = .Z
          · simp [hid, hz]
          · cases serverClientElineExempt inet lines c.subject <;> simp [hid, hz]
      · simp

end Match

/-! ## 3. One line for a mask

What is to hold of the list is said without its order: each mask and type has at most one line, and
its expiry is that of all the additions together. -/

/-- A line that is to be added. -/
structure LineAdd where
  now : Nat
  mask : Text
  reason : Text
  setBy : Text
  lineType : LineType
  duration : Nat
deriving DecidableEq

namespace LineAdd

variable (a : LineAdd)

def expiry : Nat := if 0 < a.duration then a.now + a.duration else 0

/-- `server_kline_add`. -/
def step (l : List KLine) : Option (List KLine) :=
  serverKlineAdd a.now a.mask a.reason a.setBy a.lineType a.duration l

/-- The mask fits into an entry, and the duration behind the clock. The first is what the field can
hold, the second what a `long` can. -/
structure Fits : Prop where
  mask : a.mask.length < 256
  expiry : (a.now + a.duration : Int) ≤ longMax

/-- The line is of that mask and type. -/
def isOf (t : LineType) (mask : Text) : Bool := caseEq a.mask mask && decide (a.lineType = t)

end LineAdd

def addLines (l : List KLine) (adds : List LineAdd) : Option (List KLine) :=
  adds.foldlM (fun l a => a.step l) l

/-- No two lines have the same mask and type, case aside. An addition that finds its line refreshes
it, so the list never says two things of one mask. -/
def AtMostOne (l : List KLine) : Prop :=
  l.Pairwise fun e e' => ¬ (e.lineType = e'.lineType ∧ caseEq e.mask e'.mask = true)

instance : DecidablePred AtMostOne := fun l =>
  inferInstanceAs (Decidable (l.Pairwise fun e e' =>
    ¬ (e.lineType = e'.lineType ∧ caseEq e.mask e'.mask = true)))

/-- The expiry of lines that came one after the other: none if one was permanent, or the latest. It
does not depend on the order in which they came. -/
def mergedExpiry (xs : List Nat) : Nat := if 0 ∈ xs then 0 else xs.foldl max 0

/-- What the list has of a mask and type. -/
def expiryOf (t : LineType) (mask : Text) (l : List KLine) : Option Nat :=
  (l.find? (isLine t mask)).map KLine.expiresAt

theorem foldl_max_ne_zero {xs : List Nat} (hne : xs ≠ []) (hpos : 0 ∉ xs) : xs.foldl max 0 ≠ 0 := by
  induction xs using List.reverseRecOn with
  | nil => exact absurd rfl hne
  | append_singleton xs x _ =>
    rw [List.foldl_append, List.foldl_cons, List.foldl_nil]
    have hx : x ≠ 0 := fun h => hpos (h ▸ List.mem_append_right _ List.mem_cons_self)
    omega

theorem mergedExpiry_singleton (x : Nat) : mergedExpiry [x] = x := by
  rw [mergedExpiry, List.foldl_cons, List.foldl_nil, Nat.zero_max]
  split
  next h => exact List.mem_singleton.mp h
  next => rfl

theorem mergedExpiry_concat {xs : List Nat} (hne : xs ≠ []) (x : Nat) :
    mergedExpiry (xs ++ [x]) = laterExpiry (mergedExpiry xs) x := by
  rw [mergedExpiry, mergedExpiry, laterExpiry, List.foldl_append, List.foldl_cons, List.foldl_nil]
  by_cases hxs : 0 ∈ xs
  · rw [if_pos (List.mem_append_left _ hxs), if_pos hxs, if_pos (Or.inr rfl)]
  · rw [if_neg hxs]
    by_cases hx : x = 0
    · rw [if_pos (by simp [hx]), if_pos (Or.inl hx)]
    · rw [if_neg (by simp [hxs, Ne.symm hx]), if_neg (not_or.mpr ⟨hx, foldl_max_ne_zero hne hxs⟩)]

/-- One more line is said after those that came. -/
theorem merged_concat (xs : List Nat) (x : Nat) :
    (if xs ++ [x] = [] then none else some (mergedExpiry (xs ++ [x]))) =
      some ((if xs = [] then none else some (mergedExpiry xs)).elim x fun old =>
        laterExpiry old x) := by
  have hne : xs ++ [x] ≠ [] := List.append_ne_nil_of_right_ne_nil xs (List.cons_ne_nil x [])
  rw [if_neg hne]
  by_cases hxs : xs = []
  · subst hxs
    rw [if_pos rfl, List.nil_append, Option.elim_none, mergedExpiry_singleton]
  · rw [if_neg hxs, Option.elim_some, mergedExpiry_concat hxs]

theorem isLine_congr {t t' : LineType} {mask mask' : Text} {e : KLine}
    (h : isLine t mask e = true) :
    isLine t' mask' e = (caseEq mask mask' && decide (t = t')) := by
  simp only [isLine, Bool.and_eq_true, decide_eq_true_eq] at h
  rw [isLine, h.2, caseEq_comm e.mask, caseEq_congr (s := mask') h.1, caseEq_comm]

/-- A refreshed line is found with the later expiry, and the others as they were. -/
theorem expiryOf_klineRefresh {t t' : LineType} {mask mask' : Text} (x : Nat) (l : List KLine) :
    expiryOf t' mask' (klineRefresh t mask x l) =
      if (caseEq mask mask' && decide (t = t')) = true then
        (expiryOf t' mask' l).map fun old => laterExpiry old x
      else expiryOf t' mask' l := by
  induction l with
  | nil => simp [klineRefresh, expiryOf]
  | cons e l ih =>
    rw [klineRefresh]
    by_cases he : isLine t mask e = true
    · have hsame : isLine t' mask' e = (caseEq mask mask' && decide (t = t')) := isLine_congr he
      have hnew : isLine t' mask' { e with expiresAt := laterExpiry e.expiresAt x } =
          (caseEq mask mask' && decide (t = t')) := hsame
      rw [if_pos he, expiryOf, expiryOf, List.find?_cons, List.find?_cons, hnew, hsame]
      cases caseEq mask mask' && decide (t = t') <;> rfl
    · rw [if_neg he]
      unfold expiryOf at ih ⊢
      rw [List.find?_cons, List.find?_cons]
      cases hp : isLine t' mask' e with
      | false => exact ih
      | true =>
        have hother : (caseEq mask mask' && decide (t = t')) = false := by
          have hback : isLine t mask e = (caseEq mask' mask && decide (t' = t)) := isLine_congr hp
          rw [Bool.eq_false_iff.mpr he, caseEq_comm] at hback
          exact (congrArg (caseEq mask mask' && ·) (decide_eq_decide.mpr eq_comm)).trans hback.symm
        rw [hother]
        rfl

theorem expiryOf_isSome {t : LineType} {mask : Text} {l : List KLine} :
    (expiryOf t mask l).isSome = l.any (isLine t mask) := by
  rw [expiryOf, Option.isSome_map, isSome_find?_eq]

theorem atMostOne_klineRefresh {l : List KLine} (h : AtMostOne l) (t : LineType) (mask : Text)
    (x : Nat) : AtMostOne (klineRefresh t mask x l) := by
  have hkeys : ∀ l : List KLine, (klineRefresh t mask x l).map (fun e => (e.lineType, e.mask)) =
      l.map fun e => (e.lineType, e.mask) := by
    intro l
    induction l with
    | nil => rfl
    | cons e l ih =>
      rw [klineRefresh]
      split
      · rfl
      · rw [List.map_cons, List.map_cons, ih]
  have hpair : ∀ l : List KLine, AtMostOne l ↔ (l.map fun e => (e.lineType, e.mask)).Pairwise
      fun a b => ¬ (a.1 = b.1 ∧ caseEq a.2 b.2 = true) := fun l => by
    rw [List.pairwise_map]
    rfl
  rw [hpair, hkeys, ← hpair]
  exact h

/-- **One line is added**: there is still one for its mask and type, and it has the later expiry. -/
theorem LineAdd.step_spec {a : LineAdd} (ha : a.Fits) {l : List KLine} (h : AtMostOne l) :
    ∃ l', a.step l = some l' ∧ AtMostOne l' ∧ ∀ t mask, expiryOf t mask l' =
      if a.isOf t mask = true then
        some ((expiryOf t mask l).elim a.expiry fun old => laterExpiry old a.expiry)
      else expiryOf t mask l := by
  have hadd : a.step l = some (klineAdd a.now a.mask a.reason a.setBy a.lineType a.duration l) := by
    rw [LineAdd.step, serverKlineAdd, lineExpiry_nat ha.expiry, Option.map_some, Int.toNat_natCast]
  refine ⟨_, hadd, ?_, fun t mask => ?_⟩
  · rw [klineAdd]
    split
    · exact atMostOne_klineRefresh h ..
    next hnone =>
      refine List.pairwise_cons.mpr ⟨fun e he hsame => hnone (List.any_eq_true.mpr ⟨e, he, ?_⟩), h⟩
      rw [clip_of_fits ha.mask, caseEq_comm] at hsame
      rw [isLine, hsame.2, decide_eq_true hsame.1.symm]
      rfl
  · rw [klineAdd]
    split
    next hany =>
      rw [expiryOf_klineRefresh, LineAdd.isOf]
      by_cases hof : (caseEq a.mask mask && decide (a.lineType = t)) = true
      · rw [if_pos hof, if_pos hof]
        have hthere : (expiryOf t mask l).isSome = true := by
          obtain ⟨e, he, hline⟩ := List.any_eq_true.mp hany
          rw [expiryOf_isSome]
          exact List.any_eq_true.mpr ⟨e, he, (isLine_congr hline).trans hof⟩
        obtain ⟨old, hold⟩ := Option.isSome_iff_exists.mp hthere
        rw [hold]
        rfl
      · rw [if_neg hof, if_neg hof]
    next hnone =>
      have hnew : isLine t mask ⟨clip 256 a.mask, clip 256 a.reason, clip 128 a.setBy, a.lineType,
          a.expiry⟩ = a.isOf t mask := by
        rw [isLine, clip_of_fits ha.mask, LineAdd.isOf]
      have hcons : expiryOf t mask (⟨clip 256 a.mask, clip 256 a.reason, clip 128 a.setBy,
          a.lineType, a.expiry⟩ :: l) =
          if a.isOf t mask = true then some a.expiry else expiryOf t mask l := by
        rw [expiryOf, List.find?_cons, hnew]
        cases a.isOf t mask <;> rfl
      refine hcons.trans ?_
      by_cases hof : a.isOf t mask = true
      · rw [if_pos hof, if_pos hof]
        have habsent : expiryOf t mask l = none := by
          rw [← Option.not_isSome_iff_eq_none, expiryOf_isSome]
          intro hany
          refine hnone ?_
          obtain ⟨e, he, hline⟩ := List.any_eq_true.mp hany
          refine List.any_eq_true.mpr ⟨e, he, (isLine_congr hline).trans ?_⟩
          rw [LineAdd.isOf, Bool.and_eq_true, decide_eq_true_eq] at hof
          rw [caseEq_comm, hof.1, decide_eq_true hof.2.symm]
          rfl
        rw [habsent]
        rfl
      · rw [if_neg hof, if_neg hof]

/-- A mask that does not fit is listed cut, and what is listed is no line of it. -/
theorem isLine_of_long {a : LineAdd} (hlong : 256 ≤ a.mask.length) {e : KLine}
    (he : e.mask.length < 256) : isLine a.lineType a.mask e = false := by
  rw [isLine, Bool.and_eq_false_iff]
  refine Or.inl (Bool.eq_false_iff.mpr fun hsame => ?_)
  have hlen := caseEq_length hsame
  omega

/-- **No less is enough**: an addition that does not fit breaks some list. -/
theorem LineAdd.fits_iff {a : LineAdd} (hnow : (a.now : Int) ≤ longMax) :
    a.Fits ↔ ∀ l, AtMostOne l → ∃ l', a.step l = some l' ∧ AtMostOne l' := by
  constructor
  · intro ha l h
    obtain ⟨l', hstep, hone, -⟩ := LineAdd.step_spec ha h
    exact ⟨l', hstep, hone⟩
  · intro hkeeps
    have hexp : (a.now + a.duration : Int) ≤ longMax := by
      obtain ⟨l', hstep, -⟩ := hkeeps [] List.Pairwise.nil
      obtain ⟨x, hx, -⟩ := Option.map_eq_some_iff.mp hstep
      rw [lineExpiry] at hx
      by_cases hd : (0 : Int) < a.duration
      · rw [if_pos hd] at hx
        rw [addLong] at hx
        split at hx
        next hfit => exact hfit.2
        next => exact absurd hx (Option.some_ne_none _).symm
      · omega
    refine ⟨?_, hexp⟩
    by_contra hlong
    -- the line as it is listed, and once more
    have hcut : (clip 256 a.mask).length < 256 := (clip_length_le 256 a.mask).trans_lt (by decide)
    obtain ⟨l', hstep, hone⟩ := hkeeps [⟨clip 256 a.mask, a.reason, a.setBy, a.lineType, 0⟩]
      (List.pairwise_singleton _ _)
    have hnone : ¬ [(⟨clip 256 a.mask, a.reason, a.setBy, a.lineType, 0⟩ : KLine)].any
        (isLine a.lineType a.mask) = true := by
      rw [List.any_cons, isLine_of_long (by omega) hcut, List.any_nil]
      exact Bool.false_ne_true
    rw [LineAdd.step, serverKlineAdd, lineExpiry_nat hexp, Option.map_some, Int.toNat_natCast,
      klineAdd, if_neg hnone] at hstep
    obtain rfl := Option.some.inj hstep
    exact (List.pairwise_cons.mp hone).1 _ List.mem_cons_self ⟨rfl, caseEq_refl _⟩

/-- The expiries that the additions of a mask and type say, behind the one that was there. -/
def saidExpiries (t : LineType) (mask : Text) (l : List KLine) (adds : List LineAdd) : List Nat :=
  (expiryOf t mask l).toList ++ (adds.filter (LineAdd.isOf · t mask)).map LineAdd.expiry

/-- **Lines are added** one after the other. -/
theorem addLines_spec {l : List KLine} (h : AtMostOne l) {adds : List LineAdd}
    (hadds : ∀ a ∈ adds, a.Fits) :
    ∃ l', addLines l adds = some l' ∧ AtMostOne l' ∧ ∀ t mask, expiryOf t mask l' =
      if saidExpiries t mask l adds = [] then none
      else some (mergedExpiry (saidExpiries t mask l adds)) := by
  induction adds using List.reverseRecOn with
  | nil =>
    refine ⟨l, rfl, h, fun t mask => ?_⟩
    rw [saidExpiries, List.filter_nil, List.map_nil, List.append_nil]
    cases expiryOf t mask l with
    | none => rfl
    | some x =>
      rw [Option.toList_some, if_neg (List.cons_ne_nil x []), mergedExpiry_singleton]
  | append_singleton adds a ih =>
    obtain ⟨hadds', ha⟩ := List.forall_mem_append.mp hadds
    obtain ⟨l₁, hrun, hone, hexp⟩ := ih hadds'
    obtain ⟨l₂, hstep, htwo, hexp₂⟩ := LineAdd.step_spec (ha a List.mem_cons_self) hone
    refine ⟨l₂, ?_, htwo, fun t mask => ?_⟩
    · rw [addLines, List.foldlM_append, ← addLines, hrun]
      simp [hstep]
    · rw [hexp₂, hexp, saidExpiries, saidExpiries, List.filter_append, List.map_append,
        ← List.append_assoc]
      generalize (expiryOf t mask l).toList ++
        (adds.filter (LineAdd.isOf · t mask)).map LineAdd.expiry = xs
      by_cases hof : a.isOf t mask = true
      · have hown : [a].filter (LineAdd.isOf · t mask) = [a] := by
          rw [List.filter_cons, if_pos hof, List.filter_nil]
        rw [if_pos hof, hown, List.map_singleton, merged_concat]
      · have hown : [a].filter (LineAdd.isOf · t mask) = [] := by
          rw [List.filter_cons, if_neg hof, List.filter_nil]
        rw [if_neg hof, hown, List.map_nil, List.append_nil]

/-! ## 4. Both -/

/-- **Lines are enforced as they are matched**, and added as one for each mask and type, as long as
what is added fits; and an addition that does not fit breaks some list. The last part makes the
condition exact. -/
theorem lines_agree (inet : IpText) {l : List KLine} (h : AtMostOne l) {adds : List LineAdd}
    (hadds : ∀ a ∈ adds, a.Fits) :
    (∃ l', addLines l adds = some l' ∧ AtMostOne l' ∧ ∀ t mask, expiryOf t mask l' =
      if saidExpiries t mask l adds = [] then none
      else some (mergedExpiry (saidExpiries t mask l adds))) ∧
    (∀ a ∈ adds, a.lineType.isBan = true → ∀ (lines : List KLine) (reason : Text)
      (except : Option Nat) (clients : List LineClient),
      (serverKlineEnforce inet lines a.mask a.lineType reason except clients).2 =
        clients.map fun c => if c.present except = true ∧ (serverKlineMatch inet
          (⟨clip 256 a.mask, clip 256 a.reason, clip 128 a.setBy, a.lineType, a.expiry⟩ ::
            elines lines) c.subject).isSome = true then c.quit reason else c) ∧
    ∀ a : LineAdd, (a.now : Int) ≤ longMax →
      (a.Fits ↔ ∀ l, AtMostOne l → ∃ l', a.step l = some l' ∧ AtMostOne l') := by
  refine ⟨addLines_spec h hadds, fun a ha hban lines reason except clients => ?_,
    fun a hnow => LineAdd.fits_iff hnow⟩
  refine List.map_congr_left fun c _ => ?_
  simp only [enforced_eq lines (hadds a ha).mask hban (clip 256 a.reason) (clip 128 a.setBy)
    a.expiry, Bool.and_eq_true]

/-- A host, for an hour and then for good. -/
def demoAdds : List LineAdd :=
  [⟨1700000000, "*@evil.example".toList, "Spam".toList, "oper".toList, .G, 3600⟩,
    ⟨1700000060, "*@EVIL.example".toList, "Spam again".toList, "oper".toList, .G, 0⟩]

theorem lines_agree_demo :
    (∃ l', addLines [] demoAdds = some l' ∧ AtMostOne l' ∧ ∀ t mask, expiryOf t mask l' =
      if saidExpiries t mask [] demoAdds = [] then none
      else some (mergedExpiry (saidExpiries t mask [] demoAdds))) ∧
    (∀ a ∈ demoAdds, a.lineType.isBan = true → ∀ (lines : List KLine) (reason : Text)
      (except : Option Nat) (clients : List LineClient),
      (serverKlineEnforce fullInet lines a.mask a.lineType reason except clients).2 =
        clients.map fun c => if c.present except = true ∧ (serverKlineMatch fullInet
          (⟨clip 256 a.mask, clip 256 a.reason, clip 128 a.setBy, a.lineType, a.expiry⟩ ::
            elines lines) c.subject).isSome = true then c.quit reason else c) ∧
    ∀ a : LineAdd, (a.now : Int) ≤ longMax →
      (a.Fits ↔ ∀ l, AtMostOne l → ∃ l', a.step l = some l' ∧ AtMostOne l') := by
  refine lines_agree fullInet List.Pairwise.nil fun a ha => ?_
  rcases List.mem_cons.mp ha with rfl | ha
  · exact ⟨by decide, by decide⟩
  · rw [List.mem_singleton.mp ha]
    exact ⟨by decide, by decide⟩

/-- A mask that does not fit into an entry. -/
def longMask : Text := List.replicate 256 'a'

/-- **A mask of 256 characters** is listed twice: what is listed is one character short. -/
theorem long_mask_twice : ∃ l', addLines []
    (List.replicate 2 ⟨1700000000, longMask, "Spam".toList, "oper".toList, .G, 3600⟩) = some l' ∧
    ¬ AtMostOne l' := by
  have hany : (addLines [] (List.replicate 2 ⟨1700000000, longMask, "Spam".toList, "oper".toList, .G,
      3600⟩)).any (fun l' => decide (¬ AtMostOne l')) = true := by decide +kernel
  obtain ⟨l', hrun, hl'⟩ := (Option.any_eq_true _ _).mp hany
  exact ⟨l', hrun, of_decide_eq_true hl'⟩

end SekurIRCd
