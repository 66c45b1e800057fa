/-
# Who may change whose rank

A member of level `L` who is neither an oper nor a service may give nobody a rank above `L`, may
not lower a member above `L`, may not take a rank from a service and may not touch `+r` or set
`+P`; and a KICK of theirs does not reach above `L`.

Every letter checks seniority anew, against ranks that earlier letters of the same command may
have changed, the setter's own among them.  The invariant is therefore about the ranks before the
command and those now (`Authority`), and since it bounds the setter, too, the level that a letter
is checked against never passes `L`.
-/
import SekurIRCd.Mode.Announce
import SekurIRCd.Mode.Change
import SekurIRCd.Net.Channels

namespace SekurIRCd

open CLib CLib.Signed

/-! ## 1. MODE and KICK

MODE reaches the loop behind a check that the setter is an op, or a half-op who may do a little;
KICK compares the two levels once. -/

/-- A request for one of the lists: `+b`, `-e`, `I` and the like, without an argument. -/
def isListQuery (modestring : Text) (args : List Text) : Bool :=
  let bare := (clip 4 modestring).dropWhile fun c => c == '+' || c == '-'
  decide (bare ∈ [['b'], ['e'], ['I']]) && args.isEmpty

/-- `cmd_mode_channel`, from its second parameter on.  What it replies to a request for a list
or for the modes changes nothing and is left out. -/
def cmdModeChannel (srv : Server) (cl : Client) (chan : Channel) (params : List Text) :
    ModeOutcome :=
  match params with
  | [] => ⟨chan, [], [], [], none⟩
  | modestring :: args =>
    if isListQuery modestring args then ⟨chan, [], [], [], none⟩
    else
      let has (b : RankBit) : Bool :=
        (channelFindMember chan cl.uid).any fun m => decide (b ∈ m.rank.bits)
      if !(has .op || has .halfop) && !cl.oper then
        ⟨chan, [errNotChannelOp chan.name], [], [], none⟩
      else cmdApplyChannelMode srv cl chan modestring (args.take 16) (cl.oper || has .op)

/-- What a KICK does: the channel after it, the replies to the kicker, the line for the members
and the line for the other servers. -/
structure KickOutcome where
  view : Option Channel
  replies : List Reply
  line : Option Text
  wire : Option Text

/-- `cmd_kick`, from its second parameter on; `unkickable` are the users with the mode `+q`. -/
def cmdKick (srv : Server) (unkickable : Client → Bool) (cl : Client) (chan : Channel)
    (targetNick : Text) (reason : Option Text) : KickOutcome :=
  let refuse (r : Reply) : KickOutcome := ⟨some chan, [r], none, none⟩
  match channelFindMember chan cl.uid with
  | none => refuse ⟨"442".toList, [chan.name], "You're not on that channel".toList⟩
  | some me =>
    if .op ∉ me.rank.bits ∧ .halfop ∉ me.rank.bits ∧ cl.oper = false then
      refuse (errNotChannelOp chan.name)
    else if .nokick ∈ chan.modes ∧ cl.oper = false then refuse (errNotChannelOp chan.name)
    else match (serverFindUser srv.users.clients targetNick).bind fun t =>
        (channelFindMember chan t.uid).map fun tm => (t, tm) with
    | none => refuse ⟨"441".toList, [targetNick, chan.name], "They aren't on that channel".toList⟩
    | some (target, tm) =>
      if unkickable target = true ∧ cl.oper = false then refuse (errNotChannelOp chan.name)
      else if target.isService = true ∧ cl.isService = false then
        refuse ⟨"484".toList, [target.nick, chan.name],
          "Cannot kick or deop a network service".toList⟩
      -- a halfop may only kick those below
      else if .halfop ∈ me.rank.bits ∧ .op ∉ me.rank.bits ∧ cl.oper = false ∧
          (.op ∈ tm.rank.bits ∨ .halfop ∈ tm.rank.bits) then refuse (errNotChannelOp chan.name)
      else if cl.oper = false ∧ channelRankLevel me.rank < channelRankLevel tm.rank then
        refuse (errNotChannelOp chan.name)
      else
        let reason := reason.getD cl.nick
        ⟨serverMaybeDropChannel (channelRemoveMember chan target.uid), [],
          some (ircBuild 500 [] (some (clientSource cl)) "KICK".toList [chan.name, target.nick]
            (some reason)).text,
          some (netsyncChanKick srv chan cl target.uid reason)⟩

/-! ## 2. Levels

A level is a number, and a rank a set of bits whose level is the highest of them. Taking a bit away
never raises it. -/

/-- The level a rank gives by itself. -/
def bitLevel : RankBit → Nat
  | .voice => 1
  | .halfop => 2
  | .op => 3
  | .admin => 4
  | .owner => 5

theorem bitLevel_le_level {r : Rank} {b : RankBit} (h : b ∈ r.bits) :
    bitLevel b ≤ channelRankLevel r := by
  cases b <;> simp only [channelRankLevel, bitLevel, h, if_true] <;> (repeat' split) <;> omega

theorem level_eq_bitLevel (r : Rank) :
    channelRankLevel r = 0 ∨ ∃ b ∈ r.bits, channelRankLevel r = bitLevel b := by
  unfold channelRankLevel
  split
  · exact Or.inr ⟨.owner, by assumption, rfl⟩
  · split
    · exact Or.inr ⟨.admin, by assumption, rfl⟩
    · split
      · exact Or.inr ⟨.op, by assumption, rfl⟩
      · split
        · exact Or.inr ⟨.halfop, by assumption, rfl⟩
        · split
          · exact Or.inr ⟨.voice, by assumption, rfl⟩
          · exact Or.inl rfl

theorem level_mono {r r' : Rank} (h : r.bits ⊆ r'.bits) :
    channelRankLevel r ≤ channelRankLevel r' := by
  rcases level_eq_bitLevel r with h0 | ⟨b, hb, hl⟩
  · omega
  · rw [hl]
    exact bitLevel_le_level (h hb)

theorem subset_grant (r : Rank) (b : RankBit) : r.bits ⊆ (r.grant b).bits := by
  intro x hx
  simp only [Rank.grant]
  split <;> simp [hx]

theorem revoke_subset (r : Rank) (b : RankBit) : (r.revoke b).bits ⊆ r.bits := by
  intro x hx
  simp only [Rank.revoke] at hx
  split at hx
  · exact Finset.mem_of_mem_erase (Finset.mem_of_mem_erase (Finset.mem_of_mem_erase hx))
  · exact Finset.mem_of_mem_erase hx

/-- Granting raises a level to that of the rank, at most. -/
theorem level_grant_le (r : Rank) (b : RankBit) :
    channelRankLevel (r.grant b) ≤ max (channelRankLevel r) (bitLevel b) := by
  rcases level_eq_bitLevel (r.grant b) with h0 | ⟨x, hx, hl⟩
  · omega
  · have hcases : x ∈ r.bits ∨ bitLevel x ≤ bitLevel b := by
      simp only [Rank.grant] at hx
      split at hx
      · rename_i hb
        rcases Finset.mem_insert.mp hx with rfl | hx
        · right
          rcases hb with rfl | rfl <;> decide
        · rcases Finset.mem_insert.mp hx with rfl | hx
          · exact Or.inr (le_refl _)
          · exact Or.inl hx
      · rcases Finset.mem_insert.mp hx with rfl | hx
        · exact Or.inr (le_refl _)
        · exact Or.inl hx
    rw [hl]
    rcases hcases with hx | hx
    · exact (bitLevel_le_level hx).trans (le_max_left _ _)
    · exact hx.trans (le_max_right _ _)

/-! ## 3. What one letter may do

The bound speaks of two channels, the one before the command and the one now. Each letter is shown
to keep it. -/

/-- **The bound**: what a setter of level `level` may have made of `before`. A rank was granted up
to the level or not at all, nobody above the level was lowered, and the setter has not risen. -/
structure Authority (users : List Client) (setter : Text) (level : Nat) (before now : Channel) :
    Prop where
  seniors : ∀ uid r, uid ≠ setter → before.rankOf uid = some r → level < channelRankLevel r →
    ∃ r', now.rankOf uid = some r' ∧ channelRankLevel r ≤ channelRankLevel r'
  ceiling : ∀ uid r', now.rankOf uid = some r' →
    ∃ r, before.rankOf uid = some r ∧ channelRankLevel r' ≤ max (channelRankLevel r) level
  services : ∀ u ∈ users, u.isService = true → ∀ r, before.rankOf u.uid = some r →
    ∃ r', now.rankOf u.uid = some r' ∧ r.bits ⊆ r'.bits
  registered : .r ∈ now.modes ↔ .r ∈ before.modes
  permanent : .perm ∈ now.modes → .perm ∈ before.modes

theorem Authority.refl (users : List Client) (setter : Text) (level : Nat) (chan : Channel) :
    Authority users setter level chan chan where
  seniors _ r _ h _ := ⟨r, h, le_refl _⟩
  ceiling _ r h := ⟨r, h, le_max_left _ _⟩
  services _ _ _ r h := ⟨r, h, Finset.Subset.refl _⟩
  registered := Iff.rfl
  permanent := id

section Letter

variable {srv : Server} {cl : Client} {level : Nat} {before chan : Channel}

theorem rankOf_of_not_rank {ch : Change} {c : Char} {sign : Bool}
    {p : Option Text} (hs : ch.signed = ⟨sign, c, p⟩) (hc : rankBit c = none) (uid : Text) :
    (ch.apply chan).rankOf uid = chan.rankOf uid := by
  rw [apply_rankOf]
  cases ch with
  | rank on b u nick =>
    have hletter : rankLetter b = c := congrArg Signed.letter hs
    rw [← hletter] at hc
    cases b <;> exact absurd hc (by decide)
  | _ => rfl

/-- A change of another mode leaves a flag alone. -/
theorem mem_modes_apply {ch : Change} {b : CMode} (hb : channelFlagBit (flagLetter b) = some b)
    (h : ch.signed.letter ≠ flagLetter b) : b ∈ (ch.apply chan).modes ↔ b ∈ chan.modes := by
  have hne : ∀ b', flagLetter b' ≠ flagLetter b → b ≠ b' := fun b' h e => h (e ▸ rfl)
  have hparam : ∀ b', channelFlagBit (flagLetter b') = none → b ≠ b' := by
    rintro b' hnone rfl
    rw [hb] at hnone
    exact absurd hnone (by simp)
  have hmodes : (ch.apply chan).modes = (ch.settings chan.toSettings).modes := by
    rw [← apply_settings]
  have hput : ∀ {b' : CMode} {m : Finset CMode}, b ≠ b' →
      ((b ∈ insert b' m ↔ b ∈ m) ∧ (b ∈ m.erase b' ↔ b ∈ m)) := by
    intro b' m h
    simp [h]
  rw [hmodes]
  cases ch with
  | flag on b' =>
    cases on with
    | true => exact (hput (hne b' h)).1
    | false => exact (hput (hne b' h)).2
  | key v =>
    cases v with
    | some v => exact (hput (hparam .k (by decide))).1
    | none => exact (hput (hparam .k (by decide))).2
  | limit v =>
    cases v with
    | some v => exact (hput (hparam .l (by decide))).1
    | none => exact (hput (hparam .l (by decide))).2
  | redirect v =>
    cases v with
    | some v => exact (hput (hparam .redirect (by decide))).1
    | none => exact (hput (hparam .redirect (by decide))).2
  | flood v =>
    cases v with
    | some v => exact (hput (hparam .flood (by decide))).1
    | none => exact (hput (hparam .flood (by decide))).2
  | jthrot v =>
    cases v with
    | some v => exact (hput (hparam .jthrot (by decide))).1
    | none => exact (hput (hparam .jthrot (by decide))).2
  | mask on kind m => cases on <;> cases kind <;> rfl
  | rank on b uid nick => rfl

/-- What is checked before a rank letter changes a member's rank. It is all checked against the
channel as earlier letters have left it. -/
structure RankAllowed (users : List Client) (cl : Client) (chan : Channel) (sign : Bool)
    (bit : RankBit) (target : Client) : Prop where
  known : target ∈ users
  member : ∃ r, chan.rankOf target.uid = some r ∧ (target.uid = cl.uid ∧ sign = false ∨
    rankNeed bit ≤ setterLevel chan cl ∧
      (sign = false → channelRankLevel r ≤ setterLevel chan cl))
  service : target.isService = true → cl.isService = false → sign = true

theorem applyRank_allowed {sign : Bool} {bit : RankBit} {args : List Text} :
    (applyRank srv cl chan sign bit args).chan = chan ∨
      ∃ target, RankAllowed srv.users.clients cl chan sign bit target ∧
        (applyRank srv cl chan sign bit args).chan =
          chan.updateMember target.uid (Member.setRank sign bit) := by
  unfold applyRank
  cases args with
  | nil => exact Or.inl rfl
  | cons a args =>
    simp only
    split
    · exact Or.inl rfl
    · rename_i target htarget
      split
      · exact Or.inl rfl
      · rename_i tm htm
        split
        · exact Or.inl rfl
        · rename_i hservice
          split
          · exact Or.inl rfl
          · rename_i hsenior
            split
            · exact Or.inl rfl
            · refine Or.inr ⟨target, ⟨(serverFindUser_some htarget).1, ?_, ?_⟩, rfl⟩
              · refine ⟨tm.rank, by rw [Channel.rankOf, htm, Option.map_some], ?_⟩
                simp only [Bool.and_eq_true, Bool.not_eq_true', Bool.or_eq_true, not_and, not_or,
                  Bool.and_eq_false_iff, decide_eq_false_iff_not, decide_eq_true_eq,
                  Bool.not_eq_false'] at hsenior
                by_cases hself : target.uid = cl.uid ∧ sign = false
                · exact Or.inl hself
                · have hor : ¬ target.uid = cl.uid ∨ sign = true := by
                    rw [not_and_or] at hself
                    simpa using hself
                  obtain ⟨hneed, hlevel⟩ := hsenior hor
                  exact Or.inr ⟨by omega, fun hs => by have := hlevel hs; omega⟩
              · intro hsvc hcl
                simpa [hsvc, hcl] using hservice

/-- The setter's level has not passed `level`. -/
theorem Authority.setterLevel_le (h : Authority srv.users.clients cl.uid level before chan)
    (hoper : cl.oper = false) (hservice : cl.isService = false)
    (hlevel : ∀ r, before.rankOf cl.uid = some r → channelRankLevel r ≤ level) :
    setterLevel chan cl ≤ level := by
  have hrank : ∀ m, channelFindMember chan cl.uid = some m → channelRankLevel m.rank ≤ level := by
    intro m hm
    obtain ⟨r, hr, hle⟩ := h.ceiling cl.uid m.rank (by rw [Channel.rankOf, hm, Option.map_some])
    have := hlevel r hr
    omega
  rw [setterLevel, if_neg (by simp [hoper, hservice])]
  split
  · rename_i m hm
    exact hrank m hm
  · exact Nat.zero_le _

/-- **A rank letter that passed its checks keeps the bound.** -/
theorem Authority.setRank {sign : Bool} {bit : RankBit} {target : Client}
    (h : Authority srv.users.clients cl.uid level before chan)
    (ha : RankAllowed srv.users.clients cl chan sign bit target)
    (hservice : cl.isService = false) (hset : setterLevel chan cl ≤ level)
    (hbit : rankNeed bit ≤ level → bitLevel bit ≤ level) :
    Authority srv.users.clients cl.uid level before
      (chan.updateMember target.uid (Member.setRank sign bit)) := by
  obtain ⟨r₀, hr₀, hallowed⟩ := ha.member
  -- a member may be lowered only by itself or from a level that the setter has
  have hlower : sign = false → target.uid ≠ cl.uid → channelRankLevel r₀ ≤ level := by
    intro hsign hne
    rcases hallowed with ⟨heq, -⟩ | ⟨-, hle⟩
    · exact absurd heq hne
    · exact (hle hsign).trans hset
  have hraise : sign = true → bitLevel bit ≤ level := by
    intro hsign
    rcases hallowed with ⟨-, hs⟩ | ⟨hneed, -⟩
    · exact absurd (hsign.symm.trans hs) (by simp)
    · exact hbit (hneed.trans hset)
  constructor
  · intro uid r hne hr hlt
    obtain ⟨r', hr', hle⟩ := h.seniors uid r hne hr hlt
    rw [rankOf_setRank]
    by_cases hu : uid = target.uid
    · obtain rfl : r' = r₀ := Option.some.inj (hr'.symm.trans (hu ▸ hr₀))
      rw [if_pos hu, hr', Option.map_some]
      refine ⟨_, rfl, ?_⟩
      cases sign with
      | true => exact hle.trans (level_mono (subset_grant r' bit))
      | false =>
        have := hlower rfl (hu ▸ hne)
        omega
    · rw [if_neg hu]
      exact ⟨r', hr', hle⟩
  · intro uid r' hr'
    rw [rankOf_setRank] at hr'
    by_cases hu : uid = target.uid
    · rw [if_pos hu, hu, hr₀, Option.map_some] at hr'
      obtain rfl := Option.some.inj hr'
      obtain ⟨r, hr, hle⟩ := h.ceiling target.uid r₀ hr₀
      refine ⟨r, hu ▸ hr, ?_⟩
      cases sign with
      | true =>
        have hg := level_grant_le r₀ bit
        have hb := hraise rfl
        simp only [Rank.set, if_true]
        omega
      | false => exact (level_mono (revoke_subset r₀ bit)).trans hle
    · rw [if_neg hu] at hr'
      exact h.ceiling uid r' hr'
  · intro u hu hsvc r hr
    obtain ⟨r', hr', hsub⟩ := h.services u hu hsvc r hr
    rw [rankOf_setRank]
    by_cases hut : u.uid = target.uid
    · obtain rfl : r' = r₀ := Option.some.inj (hr'.symm.trans (hut ▸ hr₀))
      have hne : u.uid ≠ [] := by
        obtain ⟨m, hm, -⟩ := Option.map_eq_some_iff.mp hr'
        have hmc : m.client = u.uid := by simpa using List.find?_some hm
        exact hmc ▸ m.named
      obtain rfl : u = target := srv.users.ok.uid_inj u hu target ha.known hut hne
      rw [if_pos rfl, hr', Option.map_some, ha.service hsvc hservice]
      exact ⟨_, rfl, hsub.trans (subset_grant r' bit)⟩
    · rw [if_neg hut]
      exact ⟨r', hr', hsub⟩
  · exact h.registered
  · exact h.permanent

/-- A rank letter, behind the gate that lets a half-op past with `v` only. -/
theorem applyLetter_rank {full sign : Bool} {c : Char} {bit : RankBit} {args : List Text}
    (hb : rankBit c = some bit) : applyLetter srv cl full chan sign c args =
      if full = false ∧ bit ≠ .voice then .refuse chan args (errNotChannelOp chan.name)
      else applyRank srv cl chan sign bit args := by
  rw [← rankLetter_of_bit hb]
  cases full <;> cases bit <;> rfl

/-- `-P` sets nothing. -/
theorem modes_unset_perm {full : Bool} {args : List Text} :
    (applyLetter srv cl full chan false 'P' args).chan.modes ⊆ chan.modes := by
  have hcases : (applyLetter srv cl full chan false 'P' args) =
      .refuse chan args (errNotChannelOp chan.name) ∨
      (applyLetter srv cl full chan false 'P' args) = applyFlag chan false .perm args := by
    cases full
    · exact Or.inl rfl
    · exact Or.inr rfl
  rcases hcases with h | h
  · rw [h]
    exact Finset.Subset.refl _
  · rw [h, applyFlag]
    split
    · exact Finset.Subset.refl _
    · exact Finset.erase_subset _ _

/-- **Every letter keeps the bound.** -/
theorem Authority.letter {full : Bool} (h : Authority srv.users.clients cl.uid level before chan)
    (hoper : cl.oper = false) (hservice : cl.isService = false)
    (hlevel : ∀ r, before.rankOf cl.uid = some r → channelRankLevel r ≤ level)
    (htwo : 2 ≤ level) (hfull : full = true → 3 ≤ level) (sign : Bool) (c : Char)
    (args : List Text) :
    Authority srv.users.clients cl.uid level before
      (applyLetter srv cl full chan sign c args).chan := by
  have hmakes := applyLetter_change srv cl full chan sign c args
  cases he : (applyLetter srv cl full chan sign c args).emit with
  | none => rwa [hmakes.1 he]
  | some p =>
    obtain ⟨ch, -, hch, hsigned⟩ := hmakes.2 p he
    have hc : ch.signed.letter = c := by rw [hsigned]
    cases hb : rankBit c with
    | none =>
      have hrank : ∀ uid, (applyLetter srv cl full chan sign c args).chan.rankOf uid =
          chan.rankOf uid := fun uid => by rw [← hch, rankOf_of_not_rank hsigned hb]
      refine ⟨?_, ?_, ?_, ?_, ?_⟩
      · simpa only [hrank] using h.seniors
      · simpa only [hrank] using h.ceiling
      · simpa only [hrank] using h.services
      · -- `r` is refused to all but services
        have hr : c ≠ 'r' := by
          rintro rfl
          rw [applyLetter, if_pos ⟨rfl, hservice⟩] at he
          exact absurd he (by simp [Letter.refuse])
        rw [← hch, mem_modes_apply (b := .r) (by decide) (by rw [hc]; exact hr)]
        exact h.registered
      · by_cases hp : c = 'P'
        · subst hp
          cases sign with
          | true =>
            rw [applyLetter, if_neg (by simp), if_pos ⟨rfl, rfl, hservice, hoper⟩] at he
            exact absurd he (by simp [Letter.refuse])
          | false => exact fun hm => h.permanent (modes_unset_perm hm)
        · rw [← hch, mem_modes_apply (b := .perm) (by decide) (by rw [hc]; exact hp)]
          exact h.permanent
    | some bit =>
      rw [applyLetter_rank hb] at he ⊢
      by_cases hgate : full = false ∧ bit ≠ .voice
      · rw [if_pos hgate] at he
        exact absurd he (by simp [Letter.refuse])
      · rw [if_neg hgate]
        have hrank : (applyRank srv cl chan sign bit args).chan = chan ∨ _ := applyRank_allowed
        rcases hrank with hsame | ⟨target, hallowed, hset⟩
        · rwa [hsame]
        · rw [hset]
          refine h.setRank hallowed hservice (h.setterLevel_le hoper hservice hlevel) fun hneed => ?_
          cases full with
          | true =>
            have h3 := hfull rfl
            cases bit <;> simp only [rankNeed, bitLevel, reduceCtorEq, if_true, if_false] at hneed ⊢ <;>
              omega
          | false =>
            obtain rfl : bit = .voice := by simpa using hgate
            simp only [bitLevel]
            omega

/-- **So does the whole run.** -/
theorem Authority.modeLoop {full : Bool} (hoper : cl.oper = false) (hservice : cl.isService = false)
    (hlevel : ∀ r, before.rankOf cl.uid = some r → channelRankLevel r ≤ level)
    (htwo : 2 ≤ level) (hfull : full = true → 3 ≤ level) : ∀ (cs : Text) (s : ModeRun),
    Authority srv.users.clients cl.uid level before s.chan →
      Authority srv.users.clients cl.uid level before (modeLoop srv cl full cs s).chan
  | [], _, h => h
  | c :: cs, s, h => by
    rw [SekurIRCd.modeLoop]
    split
    · exact h
    · refine Authority.modeLoop hoper hservice hlevel htwo hfull cs _ ?_
      have hstep := h.letter hoper hservice hlevel htwo hfull s.sign c s.args
      unfold modeChar
      split
      · exact h
      · split
        · exact h
        · simp only
          split <;> exact hstep

end Letter

/-! ## 4. MODE and KICK

The two commands together. For MODE the bound is carried through the loop, and KICK is one step. -/

/-- A KICK leaves everyone above `level` where they are, with the rank they have. When the channel
is gone after it, nobody above `level` was there. -/
def KickSpares (level : Nat) (chan : Channel) (view : Option Channel) : Prop :=
  ∀ uid r, chan.rankOf uid = some r → level < channelRankLevel r →
    ∃ chan', view = some chan' ∧ chan'.rankOf uid = some r

section Commands

variable (srv : Server) (cl : Client) (chan : Channel) {me : Rank}

theorem cmdModeChannel_authority (hoper : cl.oper = false) (hservice : cl.isService = false)
    (hme : chan.rankOf cl.uid = some me) (params : List Text) :
    Authority srv.users.clients cl.uid (channelRankLevel me) chan
      (cmdModeChannel srv cl chan params).chan := by
  obtain ⟨m, hm, rfl⟩ := Option.map_eq_some_iff.mp hme
  unfold cmdModeChannel
  cases params with
  | nil => exact Authority.refl ..
  | cons modestring args =>
    simp only
    split
    · exact Authority.refl ..
    · split
      · exact Authority.refl ..
      · rename_i hranked
        simp only [hm, hoper, Option.any_some, Bool.not_false, Bool.and_true, Bool.not_eq_true',
          Bool.or_eq_false_iff, decide_eq_false_iff_not, not_and, not_not] at hranked
        have htwo : 2 ≤ channelRankLevel m.rank := by
          by_cases hop : RankBit.op ∈ m.rank.bits
          · exact (by decide : 2 ≤ bitLevel .op).trans (bitLevel_le_level hop)
          · exact bitLevel_le_level (b := .halfop) (hranked hop)
        rw [cmdApplyChannelMode_chan]
        refine Authority.modeLoop hoper hservice (fun r hr => ?_) htwo (fun hfull => ?_) modestring
          _ (Authority.refl ..)
        · rw [Option.some.inj (hr.symm.trans hme)]
        · simp only [hm, hoper, Option.any_some, Bool.false_or, decide_eq_true_eq] at hfull
          exact bitLevel_le_level (b := .op) hfull

theorem rankOf_remove {uid v : Text} (h : v ≠ uid) :
    (channelRemoveMember chan uid).rankOf v = chan.rankOf v := by
  have hfind : channelFindMember (channelRemoveMember chan uid) v = channelFindMember chan v := by
    rw [channelFindMember, channelRemoveMember, List.find?_filter, channelFindMember]
    congr 1
    funext m
    by_cases hv : m.client = v
    · simp [hv, h]
    · simp [hv]
  rw [Channel.rankOf, hfind, Channel.rankOf]

theorem cmdKick_spares (unkickable : Client → Bool) (hoper : cl.oper = false)
    (hme : chan.rankOf cl.uid = some me) (targetNick : Text) (reason : Option Text) :
    KickSpares (channelRankLevel me) chan
      (cmdKick srv unkickable cl chan targetNick reason).view := by
  obtain ⟨m, hm, rfl⟩ := Option.map_eq_some_iff.mp hme
  have hstay : KickSpares (channelRankLevel m.rank) chan (some chan) :=
    fun uid r hr _ => ⟨chan, rfl, hr⟩
  unfold cmdKick
  simp only [hm]
  split
  · exact hstay
  · split
    · exact hstay
    · split
      · exact hstay
      · rename_i target tm hfound
        split
        · exact hstay
        · split
          · exact hstay
          · split
            · exact hstay
            · split
              · exact hstay
              · rename_i hjunior
                obtain ⟨t, -, ht⟩ := Option.bind_eq_some_iff.mp hfound
                obtain ⟨tm', htm, heq⟩ := Option.map_eq_some_iff.mp ht
                obtain ⟨rfl, rfl⟩ : t = target ∧ tm' = tm := by simpa using heq
                intro uid r hr hlt
                have hne : uid ≠ t.uid := by
                  rintro rfl
                  obtain ⟨x, hx, rfl⟩ := Option.map_eq_some_iff.mp hr
                  obtain rfl : x = tm' := Option.some.inj (hx.symm.trans htm)
                  exact hjunior ⟨hoper, hlt⟩
                have hrank := (rankOf_remove chan hne).trans hr
                refine ⟨channelRemoveMember chan t.uid, ?_, hrank⟩
                rw [serverMaybeDropChannel, if_pos (Or.inl fun hnil => ?_)]
                rw [Channel.rankOf, channelFindMember, hnil] at hrank
                exact absurd hrank (by simp)

/-- **Nobody reaches above their own level**, by MODE or by KICK, whatever the letters and their
order, and whoever they are aimed at. A letter is checked against the ranks as earlier ones left
them, so the bound is kept from letter to letter, the setter's own level included. -/
theorem rank_authority (hoper : cl.oper = false) (hservice : cl.isService = false)
    (hme : chan.rankOf cl.uid = some me) :
    (∀ params, Authority srv.users.clients cl.uid (channelRankLevel me) chan
      (cmdModeChannel srv cl chan params).chan) ∧
    ∀ unkickable targetNick reason, KickSpares (channelRankLevel me) chan
      (cmdKick srv unkickable cl chan targetNick reason).view :=
  ⟨cmdModeChannel_authority srv cl chan hoper hservice hme,
    fun unkickable => cmdKick_spares srv cl chan unkickable hoper hme⟩

end Commands

def demoOpRank : Rank := ⟨{.op}, demoOp_closed⟩

/-- Alice gives Bob voice and op and drops her own op; or she kicks Bob. -/
theorem rank_authority_alice :
    Authority demoServer.users.clients demoOp.uid (channelRankLevel demoOpRank) demoChan
      (cmdModeChannel demoServer demoOp demoChan
        ["+vo-o".toList, "bob".toList, "bob".toList, "alice".toList]).chan ∧
    KickSpares (channelRankLevel demoOpRank) demoChan
      (cmdKick demoServer (fun _ => false) demoOp demoChan "bob".toList none).view :=
  have hme : demoChan.rankOf demoOp.uid = some demoOpRank := by decide
  have h := rank_authority demoServer demoOp demoChan (by decide) (by decide) hme
  ⟨h.1 _, h.2 _ _ _⟩

end SekurIRCd
