/-
# The cached ban verdict

Whether a member is banned or quieted is asked at every message, so `channel_ban_state` keeps its
last answer in the member.  The answer holds while the generation of the two lists and a hash of
the member's identity are what they were.  A mask of the form `j:#chan` depends on something else,
the channels the member is in, and a list that holds one is marked *dynamic* and never cached.

The mark is set by a look at the outermost letter only, but masks nest: `m:j:#chan` quiets whoever
is in `#chan`, and no list is dynamic because of it (`quiet_verdict_stale`).  Up to such masks, and
to a generation that has gone all the way round, the cached verdict is the current one in every run
(`ban_state_current`).

The generations are counted without end here, and compared modulo `2^32` as the code does.
-/
import SekurIRCd.Client
import SekurIRCd.Lib.Runs
import SekurIRCd.Mask

namespace SekurIRCd

open CLib

/-! ## 1. Matching

A mask is taken apart from outside: a time, a tilde, an action, a kind. Each of these calls the
matcher again on a shorter mask, with the host it was given. -/

/-- What the hash covers: the arguments of `channel_ban_state`, and of `g_extra` the real name and
whether the connection is secure. -/
structure Identity where
  nick : Text
  user : Text
  host : Text
  realhost : Text
  ip : Text
  account : Text
  ident : Bool
  realname : Text
  secure : Bool
deriving DecidableEq

/-- What a mask can look at besides, through `g_extra->cl`: the certificate's fingerprint, and the
casefolded names of the channels the client is in. -/
structure Context where
  certfp : Text
  chans : List Text
deriving DecidableEq

/-- The loop of `irc_glob_match`. `star` is the pattern behind the last star and the text it was
tried on, which is where the loop goes back to when it is stuck. -/
def globLoop : Nat → Text → Text → Option (Text × Text) → Bool
  | 0, _, _, _ => false
  | _ + 1, p, [], _ => p.all (· == '*')
  | fuel + 1, p, c :: t, star =>
    let retry : Bool := match star with
      | some (sp, _ :: st) => globLoop fuel sp st (some (sp, st))
      | _ => false
    match p with
    | [] => retry
    | d :: p' =>
      if d.toLower = c.toLower ∨ d = '?' then globLoop fuel p' t star
      else if d = '*' then globLoop fuel p' (c :: t) (some (p', c :: t))
      else retry

/-- `irc_glob_match`.  The text a star was tried on only gets shorter, and between two such retries
every turn of the loop uses up a character of the pattern or of the text. -/
def ircGlobMatch (pattern text : Text) : Bool :=
  globLoop ((text.length + 1) * (pattern.length + text.length + 1) + 1) pattern text none

/-- `irc_mask_match`. -/
def ircMaskMatch (nick user host mask : Text) (ident : Bool) : Bool :=
  if '!' ∉ mask ∧ '@' ∉ mask then ircGlobMatch mask nick
  else ircGlobMatch mask (clip 451 (nick ++ '!' :: ircIdentFor 128 user ident ++ '@' :: host))

/-- `mask_body` where a mask that is not timed is its own body. -/
def maskBodyOf (mask : Text) : Text := (maskBody mask).getD mask

/-- What is left of a mask behind `~t:<mins>:` and behind one `~`. -/
def peel (mask : Text) : Text := (splitTilde (maskBodyOf mask)).2

/-- The mask inside `f:#chan:<mask>`, if the channel's name ends. -/
def forwardBody (e : Text) : Option Text := (strchr ':' (e.drop 2)).map Prod.snd

/-- A fingerprint without its colons, in one case. -/
def bareFingerprint (fp : Text) : Text := lower (fp.filter (· ≠ ':'))

/-- `channel_mask_hit`, with a bound on how often it may call itself.  The host is its argument, as
three are tried. -/
def maskHitFuel (id : Identity) (cx : Context) (host : Text) : Nat → Text → Bool
  | 0, _ => false
  | fuel + 1, mask =>
    let e := peel mask
    if casePrefix "f:".toList e then
      match forwardBody e with
      | some inner => maskHitFuel id cx host fuel inner
      | none => false
    else if casePrefix "a:".toList e then
      decide (id.account ≠ []) && ircGlobMatch (e.drop 2) id.account
    else if casePrefix "r:".toList e then ircGlobMatch (e.drop 2) (clip 256 id.realname)
    else if caseEq e ['z'] then id.secure
    else if "S:".toList.isPrefixOf e then
      decide (cx.certfp ≠ [] ∧ bareFingerprint (e.drop 2) = bareFingerprint cx.certfp)
    else if casePrefix "j:".toList e then cx.chans.contains (ircCasefold 64 (e.drop 2))
    else ircMaskMatch id.nick id.user host e id.ident

/-- `channel_mask_hit`. -/
def channelMaskHit (id : Identity) (cx : Context) (host mask : Text) : Bool :=
  maskHitFuel id cx host (mask.length + 1) mask

/-- `mask_hit_any_host`. -/
def maskHitAnyHost (id : Identity) (cx : Context) (mask : Text) : Bool :=
  channelMaskHit id cx id.host mask ||
    (decide (id.realhost ≠ id.host) && channelMaskHit id cx id.realhost mask) ||
    (decide (id.ip ≠ id.host ∧ id.ip ≠ id.realhost) && channelMaskHit id cx id.ip mask)

/-- `is_quiet_mask`. -/
def isQuietMask (mask : Text) : Bool := isActionBan (peel mask)

/-- What `action_ban_hit` with `'m'` asks of one mask. -/
def quietHit (id : Identity) (cx : Context) (mask : Text) : Bool :=
  casePrefix "m:".toList (peel mask) && maskHitAnyHost id cx ((peel mask).drop 2)

/-- `channel_is_quieted`. -/
def channelIsQuieted (bans : List Text) (id : Identity) (cx : Context) : Bool :=
  bans.any (quietHit id cx)

/-- `channel_is_banned`. -/
def channelIsBanned (bans exceptions : List Text) (id : Identity) (cx : Context) : Bool :=
  bans.any (fun mask => !isQuietMask mask && maskHitAnyHost id cx mask) &&
    !exceptions.any (maskHitAnyHost id cx)

/-! ## 2. The lists and the cache

The cache is a field of the membership, so it goes with the member; what it is checked against is
the sum of two generations and a hash. -/

/-- `masklist_t`. `gen` counts the edits, and `dynamic` is never taken back: a list that once had a
mask on channels is not cached again. -/
structure MaskList where
  masks : List Text
  gen : Nat
  dynamic : Bool
deriving DecidableEq

/-- What `masklist_add` marks a list for. It looks behind `~t:` and one tilde only, so it misses a
`j:` inside another mask. -/
def marksDynamic (mask : Text) : Bool := casePrefix "j:".toList (peel mask)

/-- `masklist_add`. -/
def MaskList.add (ml : MaskList) (mask : Text) : MaskList :=
  match masklistAdd ml.masks mask with
  | some masks => ⟨masks, ml.gen + 1, ml.dynamic || marksDynamic mask⟩
  | none => ml

/-- `masklist_del`. -/
def MaskList.del (ml : MaskList) (mask : Text) : MaskList :=
  match masklistDel ml.masks mask with
  | some masks => ⟨masks, ml.gen + 1, ml.dynamic && decide (masks ≠ [])⟩
  | none => ml

/-- `masklist_free` and the generation behind it, as the loser of a merge has it done. -/
def MaskList.reset (ml : MaskList) : MaskList := ⟨[], ml.gen + 1, ml.dynamic⟩

/-- One turn of FNV-1a. -/
def fnvByte (h b : UInt32) : UInt32 := (h ^^^ b) * 16777619

def fnvText (h : UInt32) (s : Text) : UInt32 := s.foldl (fun h c => fnvByte h c.toNat.toUInt32) h

/-- The hash of an identity. -/
def identHash (id : Identity) : UInt32 :=
  let h := [id.nick, id.user, id.host, id.realhost, id.ip, id.account].foldl
    (fun h s => fnvByte (fnvText h s) 0xff) 2166136261
  let h := fnvByte h (if id.ident then 1 else 0)
  fnvByte (fnvText h (clip 256 id.realname)) (if id.secure then 1 else 0)

/-- The fields `cache_*` of a member. -/
structure BanCache where
  listsGen : Nat
  hash : UInt32
  banned : Bool
  quieted : Bool
deriving DecidableEq

/-- A channel, and the clients that may be in it.  `cache` is `none` for a client who is not a
member, and `some none` until the cache of a member is valid. -/
structure BanWorld where
  bans : MaskList
  exceptions : MaskList
  ident : Nat → Identity
  chans : Nat → List Text
  certfp : Nat → Text
  cache : Nat → Option (Option BanCache)

namespace BanWorld

/-- The sum of the generations, before it is cut to 32 bits. -/
def listsGen (w : BanWorld) : Nat := w.bans.gen + w.exceptions.gen

def dynamic (w : BanWorld) : Bool := w.bans.dynamic || w.exceptions.dynamic

def context (w : BanWorld) (u : Nat) : Context := ⟨w.certfp u, w.chans u⟩

/-- What `channel_is_banned` and `channel_is_quieted` say now. -/
def verdict (w : BanWorld) (id : Identity) (cx : Context) : Bool × Bool :=
  (channelIsBanned w.bans.masks w.exceptions.masks id cx, channelIsQuieted w.bans.masks id cx)

/-- A member's cache, if it still counts. -/
def hit (w : BanWorld) (u : Nat) : Option BanCache :=
  if w.dynamic then none
  else ((w.cache u).join).filter fun c =>
    decide (c.listsGen % 2 ^ 32 = w.listsGen % 2 ^ 32 ∧ c.hash = identHash (w.ident u))

/-- `channel_ban_state`: the verdict, and the member with its cache. A kept answer is used when
neither list is dynamic and generation and hash are the same; else the verdict is computed and
kept. -/
def banState (w : BanWorld) (u : Nat) : (Bool × Bool) × BanWorld :=
  match w.hit u with
  | some c => ((c.banned, c.quieted), w)
  | none =>
    let v := w.verdict (w.ident u) (w.context u)
    (v, if (w.cache u).isSome = true ∧ w.dynamic = false then
        { w with cache :=
            Function.update w.cache u (some (some ⟨w.listsGen, identHash (w.ident u), v.1, v.2⟩)) }
      else w)

/-- What happens to a channel and to its members. A query is an event, too, as it is where an
answer is kept. -/
inductive Event
  | addBan (mask : Text)
  | delBan (mask : Text)
  | addException (mask : Text)
  | delException (mask : Text)
  | reset
  | identify (u : Nat) (id : Identity)
  | enter (u : Nat) (chans : List Text)
  | join (u : Nat)
  | part (u : Nat)
  | query (u : Nat)

def step (w : BanWorld) : Event → BanWorld
  | .addBan mask => { w with bans := w.bans.add mask }
  | .delBan mask => { w with bans := w.bans.del mask }
  | .addException mask => { w with exceptions := w.exceptions.add mask }
  | .delException mask => { w with exceptions := w.exceptions.del mask }
  | .reset => { w with bans := w.bans.reset, exceptions := w.exceptions.reset }
  | .identify u id => { w with ident := Function.update w.ident u id }
  | .enter u chans => { w with chans := Function.update w.chans u chans }
  | .join u => { w with cache := Function.update w.cache u (some none) }
  | .part u => { w with cache := Function.update w.cache u none }
  | .query u => (w.banState u).2

def run (w : BanWorld) (es : List Event) : BanWorld := es.foldl step w

/-- A new channel: no lists, generations at the start, and nothing kept for any member. -/
structure Fresh (w : BanWorld) : Prop where
  bans : w.bans = ⟨[], 0, false⟩
  exceptions : w.exceptions = ⟨[], 0, false⟩
  cache : ∀ u, w.cache u = none

end BanWorld

/-! ## 3. Which masks look at the channels of a client

What the mark should be set for: masks that come down to a `j:` however deep it stands. A mask
without one gives the same verdict whatever channels the client is in. -/

theorem length_peel_le (mask : Text) : (peel mask).length ≤ mask.length := by
  have hbody : (maskBodyOf mask).length ≤ mask.length := by
    unfold maskBodyOf
    cases h : maskBody mask with
    | none => exact le_refl _
    | some body =>
      have := maskBody_length h
      simp only [Option.getD_some]
      omega
  exact le_trans (splitTilde_length _) hbody

theorem length_forwardBody {e inner : Text} (h : forwardBody e = some inner) :
    inner.length < e.length := by
  obtain ⟨⟨a, b⟩, hs, rfl⟩ := Option.map_eq_some_iff.mp h
  have := strchr_length hs
  simp only [List.length_drop] at this
  simp only
  omega

/-- Whether a mask comes down to a `j:`. -/
def readsChansFuel : Nat → Text → Bool
  | 0, _ => false
  | fuel + 1, mask =>
    let e := peel mask
    if casePrefix "f:".toList e then (forwardBody e).any (readsChansFuel fuel)
    else casePrefix "j:".toList e

def readsChans (mask : Text) : Bool := readsChansFuel (mask.length + 1) mask

/-- Whether the verdict on a ban looks at the channels: also behind `m:`, and not behind `n:`. -/
def banReadsChans (mask : Text) : Bool :=
  if isQuietMask mask then
    casePrefix "m:".toList (peel mask) && readsChans ((peel mask).drop 2)
  else readsChans mask

variable {id : Identity} {cx cx' : Context}

/-- A call is on a shorter mask, so the bound is not what ends it. -/
theorem maskHitFuel_enough {host : Text} : ∀ {fuel k : Nat} {mask : Text}, mask.length < fuel →
    mask.length < k → maskHitFuel id cx host fuel mask = maskHitFuel id cx host k mask
  | 0, _, _, h, _ => absurd h (by omega)
  | _, 0, _, _, h => absurd h (by omega)
  | fuel + 1, k + 1, mask, h, hk => by
    have hpeel := length_peel_le mask
    simp only [maskHitFuel]
    split
    · cases hf : forwardBody (peel mask) with
      | none => rfl
      | some inner =>
        have := length_forwardBody hf
        exact maskHitFuel_enough (by omega) (by omega)
    · rfl

/-- A mask that does not come down to a `j:` does not look at the channels. -/
theorem maskHitFuel_chans (hfp : cx.certfp = cx'.certfp) {host : Text} : ∀ {fuel : Nat}
    {mask : Text}, readsChansFuel fuel mask = false →
    maskHitFuel id cx host fuel mask = maskHitFuel id cx' host fuel mask
  | 0, _, _ => rfl
  | fuel + 1, mask, h => by
    simp only [readsChansFuel] at h
    simp only [maskHitFuel]
    split at h
    · next hforward =>
      rw [if_pos hforward, if_pos hforward]
      cases hf : forwardBody (peel mask) with
      | none => rfl
      | some inner =>
        rw [hf, Option.any_some] at h
        exact maskHitFuel_chans hfp h
    · next hforward =>
      rw [if_neg hforward, if_neg hforward, hfp]
      simp only [h, Bool.false_eq_true, if_false]

theorem maskHitAnyHost_chans (hfp : cx.certfp = cx'.certfp) {mask : Text}
    (h : readsChans mask = false) : maskHitAnyHost id cx mask = maskHitAnyHost id cx' mask := by
  have hone : ∀ host, channelMaskHit id cx host mask = channelMaskHit id cx' host mask :=
    fun host => maskHitFuel_chans hfp h
  simp only [maskHitAnyHost, hone]

theorem any_congr_of_mem {α : Type} {p q : α → Bool} : ∀ {l : List α}, (∀ a ∈ l, p a = q a) →
    l.any p = l.any q
  | [], _ => rfl
  | a :: l, h => by
    rw [List.any_cons, List.any_cons, h a (List.mem_cons_self ..),
      any_congr_of_mem fun b hb => h b (List.mem_cons_of_mem _ hb)]

/-- What a ban does to the two verdicts, when it does not look at the channels. -/
theorem ban_chans (hfp : cx.certfp = cx'.certfp) {mask : Text} (h : banReadsChans mask = false) :
    (!isQuietMask mask && maskHitAnyHost id cx mask) =
        (!isQuietMask mask && maskHitAnyHost id cx' mask) ∧
      quietHit id cx mask = quietHit id cx' mask := by
  unfold banReadsChans at h
  split at h
  · next hq =>
    refine ⟨by simp [hq], ?_⟩
    cases hm : casePrefix "m:".toList (peel mask) with
    | false => simp only [quietHit, hm, Bool.false_and]
    | true =>
      rw [hm, Bool.true_and] at h
      have hhit : maskHitAnyHost id cx ((peel mask).drop 2) =
          maskHitAnyHost id cx' ((peel mask).drop 2) := maskHitAnyHost_chans hfp h
      simp only [quietHit, hhit]
  · next hq =>
    have hm : casePrefix "m:".toList (peel mask) = false := by
      simp only [isQuietMask, isActionBan, Bool.or_eq_true, not_or, Bool.not_eq_true] at hq
      exact hq.1
    exact ⟨by rw [maskHitAnyHost_chans hfp h], by simp only [quietHit, hm, Bool.false_and]⟩

/-! ## 4. What the lists and the cache keep

The condition on a step is what the code takes for granted, and the invariant is about kept answers
that still count. -/

theorem MaskList.add_cases (ml : MaskList) (mask : Text) :
    ml.add mask = ml ∨ (∀ m ∈ (ml.add mask).masks, m ∈ ml.masks ∨ m = clip 256 mask) ∧
      (ml.add mask).gen = ml.gen + 1 ∧
      (ml.add mask).dynamic = (ml.dynamic || marksDynamic mask) := by
  unfold MaskList.add
  cases h : masklistAdd ml.masks mask with
  | none => exact Or.inl rfl
  | some masks =>
    refine Or.inr ⟨fun m hm => ?_, rfl, rfl⟩
    unfold masklistAdd at h
    split_ifs at h
    obtain rfl := Option.some.inj h
    simpa using hm

theorem MaskList.del_cases (ml : MaskList) (mask : Text) :
    ml.del mask = ml ∨ (∀ m ∈ (ml.del mask).masks, m ∈ ml.masks) ∧
      (ml.del mask).gen = ml.gen + 1 ∧
      (ml.del mask).dynamic = (ml.dynamic && decide ((ml.del mask).masks ≠ [])) := by
  unfold MaskList.del
  cases h : masklistDel ml.masks mask with
  | none => exact Or.inl rfl
  | some masks =>
    refine Or.inr ⟨fun m hm => ?_, rfl, rfl⟩
    unfold masklistDel at h
    split_ifs at h
    obtain rfl := Option.some.inj h
    exact List.mem_of_mem_eraseP hm

/-- A list that is not marked has no mask for which `reads` holds. -/
def MaskList.Marked (reads : Text → Bool) (ml : MaskList) : Prop :=
  ml.dynamic = false → ∀ mask ∈ ml.masks, reads mask = false

variable {reads : Text → Bool} {ml : MaskList}

theorem MaskList.Marked.add (h : ml.Marked reads) {mask : Text}
    (hmask : reads (clip 256 mask) = true → marksDynamic mask = true) :
    (ml.add mask).Marked reads := by
  rcases ml.add_cases mask with heq | ⟨hmem, -, hdyn⟩
  · rwa [heq]
  · intro hd m hm
    rw [hdyn, Bool.or_eq_false_iff] at hd
    rcases hmem m hm with hold | rfl
    · exact h hd.1 m hold
    · by_contra hreads
      rw [Bool.not_eq_false] at hreads
      exact absurd (hmask hreads) (by simp [hd.2])

theorem MaskList.Marked.del (h : ml.Marked reads) (mask : Text) : (ml.del mask).Marked reads := by
  rcases ml.del_cases mask with heq | ⟨hmem, -, hdyn⟩
  · rwa [heq]
  · intro hd m hm
    have hne : (ml.del mask).masks ≠ [] := List.ne_nil_of_mem hm
    rw [hdyn, decide_eq_true hne, Bool.and_true] at hd
    exact h hd m (hmem m hm)

theorem MaskList.Marked.reset : ml.reset.Marked reads := fun _ _ hm => absurd hm (by simp [MaskList.reset])

namespace BanWorld

/-- When a step does what is asked: a mask that looks at the channels says so in its outermost
letter, and at a query the generation has not gone round since the answer was kept. -/
def Meets (w : BanWorld) : Event → Prop
  | .addBan mask => banReadsChans (clip 256 mask) = true → marksDynamic mask = true
  | .addException mask => readsChans (clip 256 mask) = true → marksDynamic mask = true
  | .query u => ∀ c ∈ (w.cache u).join, w.listsGen < c.listsGen + 2 ^ 32
  | _ => True

instance (w : BanWorld) : ∀ e, Decidable (w.Meets e)
  | .addBan _ => inferInstanceAs (Decidable (_ → _))
  | .addException _ => inferInstanceAs (Decidable (_ → _))
  | .query u => inferInstanceAs (Decidable (∀ c ∈ (w.cache u).join, _))
  | .delBan _ | .delException _ | .reset | .identify _ _ | .enter _ _ | .join _ | .part _ =>
    inferInstanceAs (Decidable True)

/-- Every step of a run does. -/
abbrev MeetsAll : BanWorld → List Event → Prop := Runs.Throughout step Meets

/-- The identities that are asked about in a run. -/
def asked : BanWorld → List Event → List Identity
  | _, [] => []
  | w, .query u :: es => w.ident u :: (w.step (.query u)).asked es
  | w, e :: es => (w.step e).asked es

/-- The answers in a run, each with the verdict of that moment. -/
def answers : BanWorld → List Event → List ((Bool × Bool) × Bool × Bool)
  | _, [] => []
  | w, .query u :: es =>
    ((w.banState u).1, w.verdict (w.ident u) (w.context u)) :: (w.step (.query u)).answers es
  | w, e :: es => (w.step e).answers es

/-- The lists are marked as they should be, and an answer that was kept under this generation is
right, whatever channels the member is in by now. This is what an edit of a list, a new nick and a
query all leave true. -/
structure Current (ids : List Identity) (w : BanWorld) : Prop where
  bans : w.bans.Marked banReadsChans
  exceptions : w.exceptions.Marked readsChans
  kept : ∀ u, ∀ c ∈ (w.cache u).join, c.listsGen ≤ w.listsGen ∧ (c.listsGen = w.listsGen →
    ∃ id ∈ ids, identHash id = c.hash ∧
      ∀ chans, w.verdict id ⟨w.certfp u, chans⟩ = (c.banned, c.quieted))

variable {ids : List Identity} {w : BanWorld}

theorem Current.of_fresh (h : w.Fresh) : w.Current ids where
  bans := by
    intro _ mask hm
    rw [h.bans] at hm
    exact absurd hm (by simp)
  exceptions := by
    intro _ mask hm
    rw [h.exceptions] at hm
    exact absurd hm (by simp)
  kept := by
    intro u c hc
    rw [h.cache u] at hc
    exact absurd hc (by simp)

/-- An edit of the lists makes every kept answer count for nothing. -/
theorem Current.of_newer (h : w.Current ids) {bans exceptions : MaskList}
    (hb : bans.Marked banReadsChans) (he : exceptions.Marked readsChans)
    (hgen : w.listsGen < bans.gen + exceptions.gen) :
    ({ w with bans := bans, exceptions := exceptions } : BanWorld).Current ids := by
  refine ⟨hb, he, fun u c hc => ?_⟩
  have hle := (h.kept u c hc).1
  change c.listsGen ≤ bans.gen + exceptions.gen ∧ (c.listsGen = bans.gen + exceptions.gen → _)
  exact ⟨by omega, fun heq => by omega⟩

/-- Without a mark the verdict does not depend on the channels. -/
theorem Current.verdict_chans (h : w.Current ids) (hd : w.dynamic = false) {id : Identity}
    {cx cx' : Context} (hfp : cx.certfp = cx'.certfp) : w.verdict id cx = w.verdict id cx' := by
  obtain ⟨hb, he⟩ := Bool.or_eq_false_iff.mp hd
  have hban := h.bans hb
  have hexc := h.exceptions he
  have h1 : w.bans.masks.any (fun mask => !isQuietMask mask && maskHitAnyHost id cx mask) =
      w.bans.masks.any (fun mask => !isQuietMask mask && maskHitAnyHost id cx' mask) :=
    any_congr_of_mem fun mask hm => (ban_chans hfp (hban mask hm)).1
  have h2 : w.exceptions.masks.any (maskHitAnyHost id cx) =
      w.exceptions.masks.any (maskHitAnyHost id cx') :=
    any_congr_of_mem fun mask hm => maskHitAnyHost_chans hfp (hexc mask hm)
  have h3 : w.bans.masks.any (quietHit id cx) = w.bans.masks.any (quietHit id cx') :=
    any_congr_of_mem fun mask hm => (ban_chans hfp (hban mask hm)).2
  simp only [verdict, channelIsBanned, channelIsQuieted, h1, h2, h3]

/-! ## 5. A query, a step, a run

A query either repeats an answer that the invariant says is right, or computes one and keeps it. -/

/-- **A query is answered with the verdict of the moment.** -/
theorem banState_current (h : w.Current ids)
    (hhash : ∀ i ∈ ids, ∀ j ∈ ids, identHash i = identHash j → i = j) {u : Nat}
    (hu : w.ident u ∈ ids) (hround : w.Meets (.query u)) :
    (w.banState u).1 = w.verdict (w.ident u) (w.context u) := by
  unfold banState
  cases hhit : w.hit u with
  | none => rfl
  | some c =>
    unfold hit at hhit
    split at hhit
    · exact absurd hhit (by simp)
    · obtain ⟨hc, hfresh⟩ := Option.filter_eq_some_iff.mp hhit
      obtain ⟨hgen, hhc⟩ := of_decide_eq_true hfresh
      obtain ⟨hle, hright⟩ := h.kept u c hc
      have hlt := hround c hc
      have heq : c.listsGen = w.listsGen := by omega
      obtain ⟨id, hid, hsame, hverdict⟩ := hright heq
      obtain rfl : id = w.ident u := hhash id hid _ hu (hsame.trans hhc)
      exact (hverdict (w.chans u)).symm

theorem Current.query (h : w.Current ids) {u : Nat} (hu : w.ident u ∈ ids) :
    (w.banState u).2.Current ids := by
  unfold banState
  split
  · exact h
  · dsimp only
    split
    · next hnew =>
      refine ⟨h.bans, h.exceptions, fun v c hc => ?_⟩
      by_cases hv : v = u
      · subst hv
        simp only [Function.update_self, Option.join_some, Option.mem_def, Option.some.injEq] at hc
        subst hc
        refine ⟨le_refl _, fun _ => ⟨w.ident v, hu, rfl, fun chans => ?_⟩⟩
        exact h.verdict_chans hnew.2 rfl
      · simp only [Function.update_of_ne hv] at hc
        exact h.kept v c hc
    · exact h

/-- **One step.** -/
theorem Current.step (h : w.Current ids) {e : Event} (hm : w.Meets e)
    (hasked : ∀ u, e = .query u → w.ident u ∈ ids) : (w.step e).Current ids := by
  cases e with
  | addBan mask =>
    rcases w.bans.add_cases mask with heq | ⟨-, hgen, -⟩
    · simp only [BanWorld.step, heq]
      exact h
    · exact h.of_newer (h.bans.add hm) h.exceptions (by rw [hgen, listsGen]; omega)
  | delBan mask =>
    rcases w.bans.del_cases mask with heq | ⟨-, hgen, -⟩
    · simp only [BanWorld.step, heq]
      exact h
    · exact h.of_newer (h.bans.del mask) h.exceptions (by rw [hgen, listsGen]; omega)
  | addException mask =>
    rcases w.exceptions.add_cases mask with heq | ⟨-, hgen, -⟩
    · simp only [BanWorld.step, heq]
      exact h
    · exact h.of_newer h.bans (h.exceptions.add hm) (by rw [hgen, listsGen]; omega)
  | delException mask =>
    rcases w.exceptions.del_cases mask with heq | ⟨-, hgen, -⟩
    · simp only [BanWorld.step, heq]
      exact h
    · exact h.of_newer h.bans (h.exceptions.del mask) (by rw [hgen, listsGen]; omega)
  | reset =>
    exact h.of_newer .reset .reset (by simp only [MaskList.reset, listsGen]; omega)
  | identify u id => exact ⟨h.bans, h.exceptions, h.kept⟩
  | enter u chans => exact ⟨h.bans, h.exceptions, h.kept⟩
  | join u =>
    refine ⟨h.bans, h.exceptions, fun v c hc => ?_⟩
    by_cases hv : v = u
    · subst hv
      simp [BanWorld.step] at hc
    · simp only [BanWorld.step, Function.update_of_ne hv] at hc
      exact h.kept v c hc
  | part u =>
    refine ⟨h.bans, h.exceptions, fun v c hc => ?_⟩
    by_cases hv : v = u
    · subst hv
      simp [BanWorld.step] at hc
    · simp only [BanWorld.step, Function.update_of_ne hv] at hc
      exact h.kept v c hc
  | query u => exact h.query (hasked u rfl)

/-- **A run.** -/
theorem Current.answers (hhash : ∀ i ∈ ids, ∀ j ∈ ids, identHash i = identHash j → i = j) :
    ∀ {es : List Event} {w : BanWorld}, w.Current ids → w.MeetsAll es →
    (∀ i ∈ w.asked es, i ∈ ids) → ∀ a ∈ w.answers es, a.1 = a.2
  | [], _, _, _, _, a, ha => absurd ha (by simp [BanWorld.answers])
  | e :: es, w, h, hmeets, hasked, a, ha => by
    have hone : ∀ u, e = .query u → w.ident u ∈ ids := by
      rintro u rfl
      exact hasked _ (List.mem_cons_self ..)
    have hrest : ∀ i ∈ (w.step e).asked es, i ∈ ids := by
      intro i hi
      cases e with
      | query u => exact hasked i (List.mem_cons_of_mem _ hi)
      | _ => exact hasked i hi
    have ih := Current.answers hhash (h.step hmeets.1 hone) hmeets.2 hrest
    cases e with
    | query u =>
      rcases List.mem_cons.mp ha with rfl | ha
      · exact banState_current h hhash (hone u rfl) hmeets.1
      · exact ih a ha
    | _ => exact ih a ha

/-- **The cached verdict is current**, in every run from a new channel whose steps meet the
condition: the answer is the one that matching all masks again would give. The cache is keyed by a
hash, which has to tell apart the identities that are asked about, and by the generation of the
lists, which wraps. -/
theorem ban_state_current (hw : w.Fresh) {es : List Event} (hmeets : w.MeetsAll es)
    (hhash : ∀ i ∈ w.asked es, ∀ j ∈ w.asked es, identHash i = identHash j → i = j) :
    ∀ a ∈ w.answers es, a.1 = a.2 :=
  Current.answers hhash (Current.of_fresh hw) hmeets fun _ hi => hi

/-- A new channel, with one client in view. -/
def demo : BanWorld where
  bans := ⟨[], 0, false⟩
  exceptions := ⟨[], 0, false⟩
  ident _ := ⟨"al".toList, "u".toList, "h".toList, "h".toList, "h".toList, [], true, [], false⟩
  chans _ := []
  certfp _ := []
  cache _ := none

/-- A ban that does look at the channels, and is marked for it: the answer follows the member. -/
theorem ban_state_current_marked :
    let answers := demo.answers
      [.addBan "~j:#x".toList, .join 0, .query 0, .enter 0 ["#x".toList], .query 0]
    answers.map Prod.fst = answers.map Prod.snd :=
  List.map_congr_left
    (ban_state_current ⟨rfl, rfl, fun _ => rfl⟩ (by decide +kernel) (by decide +kernel))

/-- The same ban behind `m:` is not marked.  The member goes on speaking after joining `#x`: the
kept answer says that nothing bars it, and the ban quiets it. -/
theorem quiet_verdict_stale : demo.answers
      [.addBan "~m:~j:#x".toList, .join 0, .query 0, .enter 0 ["#x".toList], .query 0] =
    [((false, false), (false, false)), ((false, false), (false, true))] := by
  decide +kernel

end BanWorld

end SekurIRCd
