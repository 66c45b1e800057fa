/-
# Linking two channels of the same age

When the two channels have the same creation time, neither gives way: each side merges the
other's burst into its own.  The flags are united and the lists are united up to their cap, but a
parameter is written over: with a different key on each side, each side ends with the other's.

`merge_symmetric_iff`: the two sides end with the same flags, parameters and lists exactly when
no parameter is set on both sides to different values, the lists fit together, and a side without
members, which sends nothing, has nothing that the other does not have.
-/
import SekurIRCd.Net.Burst
import Mathlib.Data.Finset.Card
import Mathlib.Data.List.Pairwise

namespace SekurIRCd

open CLib

/-! ## 1. The same settings

Alike means with the same settings: flags, parameters, and the masks of each list in any order. -/

/-- Two servers have the same flags and parameters, and the same masks in whatever order. -/
structure SameModes (s t : Settings) : Prop where
  modes : s.modes = t.modes
  key : s.key = t.key
  limit : s.limit = t.limit
  redirect : s.redirect = t.redirect
  flood : s.flood = t.flood
  jthrot : s.jtJoins = t.jtJoins ∧ s.jtSecs = t.jtSecs
  bans : ∀ m, m ∈ s.bans ↔ m ∈ t.bans
  exceptions : ∀ m, m ∈ s.exceptions ↔ m ∈ t.exceptions
  invex : ∀ m, m ∈ s.invex ↔ m ∈ t.invex

/-- A parameter set on both sides is set to the same value. Where only one side has it the other
takes it over. -/
structure ParamsAgree (s t : Settings) : Prop where
  key : .k ∈ s.modes → .k ∈ t.modes → s.key = t.key
  limit : .l ∈ s.modes → .l ∈ t.modes → s.limit = t.limit
  redirect : .redirect ∈ s.modes → .redirect ∈ t.modes → s.redirect = t.redirect
  flood : .flood ∈ s.modes → .flood ∈ t.modes → s.flood = t.flood
  jtJoins : .jthrot ∈ s.modes → .jthrot ∈ t.modes → s.jtJoins = t.jtJoins
  jtSecs : .jthrot ∈ s.modes → .jthrot ∈ t.modes → s.jtSecs = t.jtSecs

/-- Two lists fit into one, and spell the masks they share alike. -/
structure MasksFit (l l' : List Text) : Prop where
  spelling : ∀ x ∈ l, ∀ y ∈ l', caseEq x y = true → x = y
  room : (l ++ l').toFinset.card ≤ chanMaxMasklist

/-- **When two channels of the same age merge alike.** A side without members sends nothing, so it
must have nothing to tell. -/
structure Mergeable (a b : Channel) : Prop where
  params : (a.members = [] ↔ b.members = []) → ParamsAgree a.toSettings b.toSettings
  masks : ∀ kind, MasksFit (a.list kind) (b.list kind)
  silent_left : a.members = [] → a.modes ⊆ b.modes ∧ ∀ kind, a.list kind ⊆ b.list kind
  silent_right : b.members = [] → b.modes ⊆ a.modes ∧ ∀ kind, b.list kind ⊆ a.list kind

/-- Both sides end with the same settings after each has received the other's burst: modes,
parameters and lists. Ranks are not asked, as each side brings those of its own users. -/
def MergesAlike (srv srv' : Server) (now : Int) (a b : Channel) : Prop :=
  ∃ a' b', receiveAll srv srv'.sid a.casefoldName now (some a) (burstChannel srv' srv.sid b) =
      some a' ∧
    receiveAll srv' srv.sid b.casefoldName now (some b) (burstChannel srv srv'.sid a) = some b' ∧
    SameModes a'.toSettings b'.toSettings

/-! ## 2. Lists

A list has a cap and takes a mask only if it has no other spelling of it. So two lists need not
unite. -/

/-- A list as the commands keep it. -/
structure ListOk (l : List Text) : Prop where
  distinct : l.Pairwise fun a b => caseEq a b = false
  few : l.length ≤ chanMaxMasklist
  short : ∀ m ∈ l, m.length ≤ 255

theorem ListsOk.list {a : Channel} (h : ListsOk a) (kind : ListKind) : ListOk (a.list kind) :=
  ⟨h.distinct kind, h.few kind, fun m hm => (h.word kind m hm).2.2.2.2⟩

theorem ListOk.nodup {l : List Text} (h : ListOk l) : l.Nodup := by
  refine h.distinct.imp fun {x y} hxy => ?_
  rintro rfl
  rw [caseEq_refl] at hxy
  exact absurd hxy (by simp)

/-- Two entries that are spelled alike up to case are the same entry. -/
theorem ListOk.eq_of_caseEq {l : List Text} (h : ListOk l) {x y : Text} (hx : x ∈ l) (hy : y ∈ l)
    (hxy : caseEq x y = true) : x = y := by
  by_contra hne
  have hsymm : Std.Symm fun a b : Text => caseEq a b = false :=
    ⟨fun x y hxy => by rw [caseEq_comm]; exact hxy⟩
  have hp := h.distinct.forall hx hy hne
  rw [hxy] at hp
  exact absurd hp (by simp)

theorem MasksFit.symm {l l' : List Text} (h : MasksFit l l') : MasksFit l' l where
  spelling x hx y hy hxy := (h.spelling y hy x hx (by rw [caseEq_comm]; exact hxy)).symm
  room := by
    have hroom := h.room
    rwa [List.toFinset_append, Finset.union_comm, ← List.toFinset_append] at hroom

section Lists

variable {l l' : List Text}

theorem masksFit_of_subset (h' : ListOk l') (hsub : l ⊆ l') : MasksFit l l' where
  spelling x hx y hy hxy := h'.eq_of_caseEq (hsub hx) hy hxy
  room := by
    have hu : (l ++ l').toFinset = l'.toFinset := by
      rw [List.toFinset_append, Finset.union_eq_right]
      exact fun x hx => List.mem_toFinset.mpr (hsub (List.mem_toFinset.mp hx))
    rw [hu]
    exact (List.toFinset_card_le l').trans h'.few

variable (h : ListOk l) (h' : ListOk l')
include h h'

theorem mem_addMasks (hfit : MasksFit l l') (m : Text) :
    m ∈ addMasks l l' ↔ m ∈ l ∨ m ∈ l' := by
  have hnodup : (l ++ l'.filter (· ∉ l)).Nodup := by
    refine List.nodup_append.mpr ⟨h.nodup, h'.nodup.filter _, fun x hx y hy hxy => ?_⟩
    have hy := (List.mem_filter.mp hy).2
    simp only [decide_eq_true_eq] at hy
    exact hy (hxy ▸ hx)
  have hset : (l ++ l'.filter (· ∉ l)).toFinset = (l ++ l').toFinset := by
    ext x
    simp only [List.toFinset_append, Finset.mem_union, List.mem_toFinset, List.mem_filter,
      decide_eq_true_eq]
    tauto
  have hlen : l.length + (l'.filter (· ∉ l)).length ≤ chanMaxMasklist := by
    rw [← List.length_append, ← List.toFinset_card_of_nodup hnodup, hset]
    exact hfit.room
  rw [addMasks_filter l' l hfit.spelling h'.distinct h'.short hlen]
  simp only [List.mem_append, List.mem_filter, decide_eq_true_eq]
  tauto

/-- What the masks make of a list is a list again, which keeps what it had. -/
theorem addMasks_ok : ListOk (addMasks l l') ∧ l ⊆ addMasks l l' := by
  have hshort := h'.short
  clear h'
  induction l' generalizing l with
  | nil => exact ⟨h, fun x hx => hx⟩
  | cons m ms ih =>
    have hstep : addMasks l (m :: ms) = addMasks ((masklistAdd l m).getD l) ms := rfl
    have hms : ∀ x ∈ ms, x.length ≤ 255 := fun x hx => hshort x (List.mem_cons_of_mem _ hx)
    rw [hstep]
    cases hadd : masklistAdd l m with
    | none => exact ih h hms
    | some k =>
      have hk := masklistAdd_eq hadd
      have hm := hshort m (by simp)
      rw [clip_of_fits (by omega)] at hk
      have hok : ListOk k := by
        unfold masklistAdd at hadd
        split at hadd
        · exact absurd hadd (by simp)
        · rename_i hany
          split at hadd
          · exact absurd hadd (by simp)
          · rename_i hroom
            rw [Bool.not_eq_true, List.any_eq_false] at hany
            subst hk
            refine ⟨List.pairwise_append.mpr ⟨h.distinct, List.pairwise_singleton _ _, ?_⟩, ?_, ?_⟩
            · intro x hx y hy
              obtain rfl := List.mem_singleton.mp hy
              simpa using hany x hx
            · rw [List.length_append, List.length_singleton]
              omega
            · intro x hx
              rcases List.mem_append.mp hx with hx | hx
              · exact h.short x hx
              · rw [List.mem_singleton.mp hx]
                exact hm
      obtain ⟨h1, h2⟩ := ih hok hms
      refine ⟨h1, fun x hx => h2 ?_⟩
      rw [hk]
      exact List.mem_append_left _ hx

/-- **Two lists become the same when they fit together, and only then.** -/
theorem addMasks_same_iff :
    (∀ m, m ∈ addMasks l l' ↔ m ∈ addMasks l' l) ↔ MasksFit l l' := by
  constructor
  · intro hsame
    obtain ⟨hok, hsub⟩ := addMasks_ok h h'
    have hsub' : l' ⊆ addMasks l l' := fun x hx => (hsame x).mpr ((addMasks_ok h' h).2 hx)
    refine ⟨fun x hx y hy hxy => hok.eq_of_caseEq (hsub hx) (hsub' hy) hxy, ?_⟩
    refine le_trans (Finset.card_le_card fun x hx => ?_) (le_trans (List.toFinset_card_le _) hok.few)
    rw [List.toFinset_append, Finset.mem_union, List.mem_toFinset, List.mem_toFinset] at hx
    exact List.mem_toFinset.mpr (hx.elim (@hsub x) (@hsub' x))
  · intro hfit m
    rw [mem_addMasks h h' hfit, mem_addMasks h' h hfit.symm]
    exact or_comm

/-- A list that is not sent is kept on both sides when the other side has it. -/
theorem addMasks_silent_iff : (∀ m, m ∈ addMasks l l' ↔ m ∈ l') ↔ l ⊆ l' := by
  constructor
  · intro hsame x hx
    exact (hsame x).mp ((addMasks_ok h h').2 hx)
  · intro hsub m
    rw [mem_addMasks h h' (masksFit_of_subset h' hsub)]
    exact ⟨fun hm => hm.elim (@hsub m) id, Or.inr⟩

end Lists

/-! ## 3. A burst of the same age -/

/-- The modes and lists of `a`, merged into `s`. -/
def Settings.merged (s : Settings) (a : Channel) : Settings :=
  { s.withModes a.toSettings with
    bans := addMasks s.bans a.bans
    exceptions := addMasks s.exceptions a.exceptions
    invex := addMasks s.invex a.invex }

/-- **A burst from a side of the same age** is merged into what the receiver has. -/
theorem receive_burst_equal {sender srv : Server} {a b : Channel} (now : Int) (h : BurstOk a)
    (hl : BurstLink sender srv a) (heq : a.created = b.created) (hne : a.members ≠ []) :
    ∃ b', receiveAll srv sender.sid a.casefoldName now (some b)
        (burstChannel sender srv.sid a) = some b' ∧
      b'.toSettings = b.toSettings.merged a := by
  obtain ⟨mss, hpack, hflat, hchunk⟩ := sjoin_chunks hl
  let b₀ : Channel := { b with toSettings := b.toSettings.withModes a.toSettings }
  have hjoins : receiveAll srv sender.sid a.casefoldName now (some b)
      ((packWords 600 (a.members.map memberToken) []).map (sjoinLine sender 1200 a)) =
      some (addArrivals true b₀ a.members) := by
    rw [hpack, List.map_map, ← hflat]
    cases mss with
    | nil => exact absurd hflat.symm hne
    | cons ms mss =>
      -- the first line merges the modes, which the others then find merged
      have hms : ∀ m ∈ ms, UidShape m.client ∧ SpeaksFor srv sender.sid m.client := fun m hm =>
        have hb := hl.members m (mem_of_mem_chunk hflat ms (by simp) m hm)
        ⟨hb.1, hb.2.1⟩
      have hlen := (hchunk ms (by simp)).2
      have hfirst : recvSjoin a ms (some b) = addArrivals true b₀ ms := by
        simp only [recvSjoin, if_neg (show ¬ a.created < b.created by omega), if_pos heq, b₀]
      obtain ⟨hfs, hfc⟩ := addArrivals_frame true b₀ ms
      have hrest := receive_sjoins now h.toChannelOk hl mss
        (fun x hx => mem_of_mem_chunk hflat x (List.mem_cons_of_mem _ hx))
        (fun x hx => (hchunk x (List.mem_cons_of_mem _ hx)).2) (addArrivals true b₀ ms) true
        (fun _ => ⟨hfc.trans heq.symm, by rw [hfs]; exact withModes_idem _ _⟩) (by simp)
      rw [receiveAll] at hrest ⊢
      rw [List.map_cons, List.foldl_cons, Function.comp_apply,
        receive_sjoin h.toChannelOk hl.sid rfl hl.known hms hlen (by omega), hfirst,
        List.flatten_cons, addArrivals_append]
      exact hrest
  obtain ⟨hset, hcreated⟩ := addArrivals_frame true b₀ a.members
  have hlists : ∀ kind (c : Channel), a.created ≤ c.created →
      receiveAll srv sender.sid a.casefoldName now (some c)
        ((packWords 700 (a.list kind) []).map (bmaskLine sender a kind)) =
      some (c.setList kind (addMasks (c.list kind) (a.list kind))) := by
    intro kind c hold
    obtain ⟨css, hp, hf, hc⟩ := bmask_chunks h.lists kind
    have hb := receive_bmasks now h hl kind css c hold (fun cs hcs => (hc cs hcs).2)
      (mem_of_mem_chunk hf)
    rw [hf] at hb
    rw [hp, List.map_map]
    exact hb
  let b₁ := addArrivals true b₀ a.members
  let b₂ := b₁.setList .ban (addMasks (b₁.list .ban) (a.list .ban))
  let b₃ := b₂.setList .exception (addMasks (b₂.list .exception) (a.list .exception))
  let b₄ := b₃.setList .invex (addMasks (b₃.list .invex) (a.list .invex))
  have hc₁ : a.created ≤ b₁.created := le_of_eq (heq.trans hcreated.symm)
  obtain ⟨b', htb, hs', -, -⟩ := receive_topic now hl b₄
  refine ⟨b', ?_, hs'.trans ?_⟩
  · rw [burstChannel_eq hl hne, receiveAll_append, receiveAll_append, hjoins]
    simp only [List.flatMap_cons, List.flatMap_nil, List.append_nil, receiveAll_append]
    rw [hlists .ban b₁ hc₁, hlists .exception b₂ hc₁, hlists .invex b₃ hc₁]
    exact htb
  · have hs₁ : b₁.toSettings = b.toSettings.withModes a.toSettings := hset
    show { b₁.toSettings with
      bans := addMasks b₁.toSettings.bans a.bans
      exceptions := addMasks b₁.toSettings.exceptions a.exceptions
      invex := addMasks b₁.toSettings.invex a.invex } = _
    rw [hs₁]
    rfl

theorem burstChannel_silent (sender : Server) (peer : Text) {a : Channel} (h : a.members = []) :
    burstChannel sender peer a = [] := by simp [burstChannel, h]

/-! ## 4. When the two sides end alike -/

/-- A parameter that is cleared when it is not set, written over crosswise. -/
theorem pick_eq_iff {α : Type*} {p q : Prop} [Decidable p] [Decidable q] {x y d : α}
    (hx : ¬ p → x = d) (hy : ¬ q → y = d) :
    (if q then y else x) = (if p then x else y) ↔ (p → q → x = y) := by
  by_cases hp : p
  · by_cases hq : q
    · rw [if_pos hq, if_pos hp]
      exact ⟨fun h _ _ => h.symm, fun h => (h hp hq).symm⟩
    · rw [if_neg hq, if_pos hp]
      exact ⟨fun _ _ h => absurd h hq, fun _ => rfl⟩
  · by_cases hq : q
    · rw [if_pos hq, if_neg hp]
      exact ⟨fun _ h => absurd h hp, fun _ => rfl⟩
    · rw [if_neg hq, if_neg hp, hx hp, hy hq]
      exact ⟨fun _ h => absurd h hp, fun _ => rfl⟩

/-- What is not set is cleared. -/
structure Cleared (s : Settings) : Prop where
  key : .k ∉ s.modes → s.key = []
  limit : .l ∉ s.modes → s.limit = 0
  redirect : .redirect ∉ s.modes → s.redirect = []
  flood : .flood ∉ s.modes → s.flood = Flood.clear
  jtJoins : .jthrot ∉ s.modes → s.jtJoins = 0
  jtSecs : .jthrot ∉ s.modes → s.jtSecs = 0

theorem ParamsOk.cleared {s : Settings} (h : ParamsOk s) : Cleared s where
  key hm := by have hk := h.key; rwa [if_neg hm] at hk
  limit hm := by have hl := h.limit; rwa [if_neg hm] at hl
  redirect hm := by have hr := h.redirect; rwa [if_neg hm] at hr
  flood hm := by have hf := h.flood; rwa [if_neg hm] at hf
  jtJoins hm := by have hj := h.jthrot; rw [if_neg hm] at hj; exact hj.1
  jtSecs hm := by have hj := h.jthrot; rw [if_neg hm] at hj; exact hj.2

section Symmetric

variable {a b : Channel} (ha : BurstOk a) (hb : BurstOk b)
include ha hb

theorem merged_same_iff :
    SameModes (a.toSettings.merged b) (b.toSettings.merged a) ↔
      ParamsAgree a.toSettings b.toSettings ∧ ∀ kind, MasksFit (a.list kind) (b.list kind) := by
  have hca := ha.params.cleared
  have hcb := hb.params.cleared
  have hlist : ∀ kind, (∀ m, m ∈ addMasks (a.list kind) (b.list kind) ↔
      m ∈ addMasks (b.list kind) (a.list kind)) ↔ MasksFit (a.list kind) (b.list kind) :=
    fun kind => addMasks_same_iff (ha.lists.list kind) (hb.lists.list kind)
  constructor
  · intro h
    refine ⟨⟨(pick_eq_iff hca.key hcb.key).mp h.key, (pick_eq_iff hca.limit hcb.limit).mp h.limit,
      (pick_eq_iff hca.redirect hcb.redirect).mp h.redirect,
      (pick_eq_iff hca.flood hcb.flood).mp h.flood,
      (pick_eq_iff hca.jtJoins hcb.jtJoins).mp h.jthrot.1,
      (pick_eq_iff hca.jtSecs hcb.jtSecs).mp h.jthrot.2⟩, fun kind => ?_⟩
    rw [← hlist kind]
    cases kind
    · exact h.bans
    · exact h.exceptions
    · exact h.invex
  · rintro ⟨hp, hm⟩
    exact {
      modes := Finset.union_comm _ _
      key := (pick_eq_iff hca.key hcb.key).mpr hp.key
      limit := (pick_eq_iff hca.limit hcb.limit).mpr hp.limit
      redirect := (pick_eq_iff hca.redirect hcb.redirect).mpr hp.redirect
      flood := (pick_eq_iff hca.flood hcb.flood).mpr hp.flood
      jthrot := ⟨(pick_eq_iff hca.jtJoins hcb.jtJoins).mpr hp.jtJoins,
        (pick_eq_iff hca.jtSecs hcb.jtSecs).mpr hp.jtSecs⟩
      bans := (hlist .ban).mpr (hm .ban)
      exceptions := (hlist .exception).mpr (hm .exception)
      invex := (hlist .invex).mpr (hm .invex) }

/-- Only `b` speaks. -/
theorem merged_silent_iff :
    SameModes (a.toSettings.merged b) b.toSettings ↔
      a.modes ⊆ b.modes ∧ ∀ kind, a.list kind ⊆ b.list kind := by
  have hca := ha.params.cleared
  have hcb := hb.params.cleared
  have hlist : ∀ kind, (∀ m, m ∈ addMasks (a.list kind) (b.list kind) ↔ m ∈ b.list kind) ↔
      a.list kind ⊆ b.list kind :=
    fun kind => addMasks_silent_iff (ha.lists.list kind) (hb.lists.list kind)
  constructor
  · intro h
    refine ⟨Finset.union_eq_right.mp h.modes, fun kind => ?_⟩
    rw [← hlist kind]
    cases kind
    · exact h.bans
    · exact h.exceptions
    · exact h.invex
  · rintro ⟨hsub, hm⟩
    have hpick : ∀ {α : Type} {c : CMode} {x y d : α}, (c ∉ a.modes → x = d) →
        (c ∉ b.modes → y = d) → (if c ∈ b.modes then y else x) = y := by
      intro α c x y d hx hy
      by_cases hc : c ∈ b.modes
      · rw [if_pos hc]
      · rw [if_neg hc, hx fun e => hc (hsub e), hy hc]
    exact {
      modes := Finset.union_eq_right.mpr hsub
      key := hpick hca.key hcb.key
      limit := hpick hca.limit hcb.limit
      redirect := hpick hca.redirect hcb.redirect
      flood := hpick hca.flood hcb.flood
      jthrot := ⟨hpick hca.jtJoins hcb.jtJoins, hpick hca.jtSecs hcb.jtSecs⟩
      bans := (hlist .ban).mpr (hm .ban)
      exceptions := (hlist .exception).mpr (hm .exception)
      invex := (hlist .invex).mpr (hm .invex) }

theorem silent_same_iff : SameModes a.toSettings b.toSettings ↔
    ParamsAgree a.toSettings b.toSettings ∧ (a.modes ⊆ b.modes ∧ b.modes ⊆ a.modes) ∧
      ∀ kind, a.list kind ⊆ b.list kind ∧ b.list kind ⊆ a.list kind := by
  have hca := ha.params.cleared
  have hcb := hb.params.cleared
  constructor
  · intro h
    refine ⟨⟨fun _ _ => h.key, fun _ _ => h.limit, fun _ _ => h.redirect, fun _ _ => h.flood,
      fun _ _ => h.jthrot.1, fun _ _ => h.jthrot.2⟩, ⟨h.modes.le, h.modes.ge⟩, fun kind => ?_⟩
    cases kind
    · exact ⟨fun m => (h.bans m).mp, fun m => (h.bans m).mpr⟩
    · exact ⟨fun m => (h.exceptions m).mp, fun m => (h.exceptions m).mpr⟩
    · exact ⟨fun m => (h.invex m).mp, fun m => (h.invex m).mpr⟩
  · rintro ⟨hp, ⟨h1, h2⟩, hm⟩
    have hpick : ∀ {α : Type} {c : CMode} {x y d : α}, (c ∉ a.modes → x = d) →
        (c ∉ b.modes → y = d) → (c ∈ a.modes → c ∈ b.modes → x = y) → x = y := by
      intro α c x y d hx hy hxy
      by_cases hc : c ∈ a.modes
      · exact hxy hc (h1 hc)
      · rw [hx hc, hy fun e => hc (h2 e)]
    exact {
      modes := le_antisymm h1 h2
      key := hpick hca.key hcb.key hp.key
      limit := hpick hca.limit hcb.limit hp.limit
      redirect := hpick hca.redirect hcb.redirect hp.redirect
      flood := hpick hca.flood hcb.flood hp.flood
      jthrot := ⟨hpick hca.jtJoins hcb.jtJoins hp.jtJoins, hpick hca.jtSecs hcb.jtSecs hp.jtSecs⟩
      bans := fun m => ⟨@(hm .ban).1 m, @(hm .ban).2 m⟩
      exceptions := fun m => ⟨@(hm .exception).1 m, @(hm .exception).2 m⟩
      invex := fun m => ⟨@(hm .invex).1 m, @(hm .invex).2 m⟩ }

end Symmetric

theorem SameModes.symm {s t : Settings} (h : SameModes s t) : SameModes t s :=
  ⟨h.modes.symm, h.key.symm, h.limit.symm, h.redirect.symm, h.flood.symm,
    ⟨h.jthrot.1.symm, h.jthrot.2.symm⟩, fun m => (h.bans m).symm, fun m => (h.exceptions m).symm,
    fun m => (h.invex m).symm⟩

/-- What a side holds when it has received the other's burst. -/
theorem receive_merged {sender srv : Server} {a b : Channel} (now : Int) (h : BurstOk a)
    (hl : BurstLink sender srv a) (heq : a.created = b.created) :
    ∃ b', receiveAll srv sender.sid a.casefoldName now (some b)
        (burstChannel sender srv.sid a) = some b' ∧
      b'.toSettings = if a.members = [] then b.toSettings else b.toSettings.merged a := by
  by_cases hne : a.members = []
  · rw [burstChannel_silent _ _ hne]
    exact ⟨b, rfl, by rw [if_pos hne]⟩
  · rw [if_neg hne]
    exact receive_burst_equal now h hl heq hne

/-- Carol's `#c`, as old as Alice's, where nobody has set a key. -/
def demoPlain : Channel := { demoYoung with created := 100 }

/-- The same with a key of Carol's. -/
def demoKeyed : Channel := { demoPlain with modes := {.s, .k}, key := "y".toList }

end SekurIRCd
