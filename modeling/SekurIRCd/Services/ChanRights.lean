/-
# Who may change a registration

`Entitles` says which events give a right to a channel: a message that holds its password (or `*`,
from the founder's account), the hub's answer that who asked to register it is an operator there,
its answer that who claims it is the successor while nobody is identified, and its expiry.

Whatever comes in between, a registration changes by such an event only (`changed_by_right`), up to
what ChanServ writes down by itself: the last use, the timestamp and the topic.  And who passes for
identified has earned it by such an event or by coming as the founder's account, at most six hours
ago, and has not quit since (`identified_earned`).
-/
import SekurIRCd.Services.ChanRegistry

namespace SekurIRCd

open CLib

/-! ## 1. Texts

Words are cut from a message by spaces, and a password that is shown is one of its words. -/

/-- The first piece of a text is in front, and the others are somewhere in it. -/
theorem infix_of_splitSep (t : Text) : ∃ p ps, splitSep ' ' t = p :: ps ∧ p <+: t ∧
    ∀ q ∈ ps, q <:+: t := by
  induction t with
  | nil => exact ⟨[], [], rfl, List.prefix_rfl, nofun⟩
  | cons c t ih =>
    obtain ⟨p, ps, hsplit, hp, hps⟩ := ih
    have hcons : t <:+: c :: t := (List.suffix_cons c t).isInfix
    rw [splitSep, hsplit]
    split
    · refine ⟨[], p :: ps, rfl, List.nil_prefix, fun q hq => ?_⟩
      rcases List.mem_cons.mp hq with rfl | hq
      · exact hp.isInfix.trans hcons
      · exact (hps q hq).trans hcons
    · refine ⟨c :: p, ps, rfl, List.cons_prefix_cons.mpr ⟨rfl, hp⟩, fun q hq => ?_⟩
      exact (hps q hq).trans hcons

theorem infix_of_mem_strtok {t w : Text} (h : w ∈ strtok ' ' t) : w <:+: t := by
  obtain ⟨p, ps, hsplit, hp, hps⟩ := infix_of_splitSep t
  have hw : w ∈ splitSep ' ' t := (List.mem_filter.mp h).1
  rw [hsplit] at hw
  rcases List.mem_cons.mp hw with rfl | hw
  · exact hp.isInfix
  · exact hps w hw

theorem afterWord_suffix (t : Text) : ChanRegistry.afterWord t <:+ t := by
  refine (List.tail_suffix _).trans ((List.dropWhile_suffix _).trans (List.dropWhile_suffix _))

theorem prefix_of_clip (n : Nat) (t : Text) : clip n t <+: t := List.take_prefix _ _

theorem infix_of_lastWord (t : Text) : (ChanRegistry.lastWord t).2 <:+: t := by
  rw [ChanRegistry.lastWord]
  split
  · exact (prefix_of_clip 128 _).isInfix.trans (List.rtakeWhile_suffix _ _).isInfix
  · exact (prefix_of_clip 128 t).isInfix

/-! ## 2. Records

A record is compared up to what ChanServ writes by itself, so that a command may note its use. -/

namespace JsonRecord

/-- What ChanServ writes down by itself. -/
def isBookkeeping (key : Text) : Bool :=
  key == "last_used".toList || key == "ts".toList || key == "topic".toList

/-- The rest of a record. -/
def rights (r : JsonRecord) : JsonRecord := r.filter fun x => !isBookkeeping x.1

theorem rights_delete {key : Text} (h : isBookkeeping key = true) (r : JsonRecord) :
    (r.delete key).rights = r.rights := by
  induction r with
  | nil => rfl
  | cons x r ih =>
    rw [delete] at ih
    rw [delete]
    cases hx : x.1 == key with
    | true =>
      have hkey : isBookkeeping x.1 = true := by rwa [eq_of_beq hx]
      rw [List.eraseP_cons_of_pos (by exact hx), rights, rights,
        List.filter_cons_of_neg (by rw [hkey]; decide)]
    | false =>
      rw [List.eraseP_cons_of_neg (by rw [hx]; decide), rights, List.filter_cons, ← rights, ih,
        rights, rights, List.filter_cons]

theorem rights_add {key : Text} (h : isBookkeeping key = true) (item : JsonItem)
    (r : JsonRecord) : (r.add key item).rights = r.rights := by
  simp [add, rights, h]

theorem rights_recSetNum {key : Text} (h : isBookkeeping key = true) (value : Int)
    (r : JsonRecord) : (r.recSetNum key value).rights = r.rights := by
  rw [recSetNum, rights_add h, rights_delete h]

theorem rights_recSetStr {key : Text} (h : isBookkeeping key = true) (value : Text)
    (r : JsonRecord) : (r.recSetStr key value).rights = r.rights := by
  rw [recSetStr, rights_add h, rights_delete h]

end JsonRecord

namespace ChanRegistry

variable {cfg : RegistryConfig} {o : Moment} {s t u : ChanRegistry}

/-- The keys of the store. -/
def keys (s : ChanRegistry) : List Text := s.store.map Prod.fst

theorem recordAt_eq_none {k : Text} : s.recordAt k = none ↔ k ∉ s.keys := by
  rw [recordAt, Option.map_eq_none_iff, List.find?_eq_none, keys, List.mem_map]
  constructor
  · rintro h ⟨e, he, rfl⟩
    exact h e he (beq_self_eq_true _)
  · intro h e he hk
    exact h ⟨e, he, eq_of_beq hk⟩

theorem keys_editAt (k : Text) (f : JsonRecord → JsonRecord) (l : List (Text × JsonRecord)) :
    (editAt k f l).map Prod.fst = l.map Prod.fst := by
  induction l with
  | nil => rfl
  | cons e l ih =>
    rw [editAt]
    split
    · rfl
    · rw [List.map_cons, ih, List.map_cons]

theorem find?_editAt (k k' : Text) (f : JsonRecord → JsonRecord) (l : List (Text × JsonRecord)) :
    ((editAt k f l).find? fun e => e.1 == k').map Prod.snd =
      ((l.find? fun e => e.1 == k').map Prod.snd).map fun r => if k' = k then f r else r := by
  induction l with
  | nil => rfl
  | cons e l ih =>
    rw [editAt]
    cases hk : e.1 == k with
    | true =>
      have hek := eq_of_beq hk
      rw [if_pos rfl]
      cases hk' : e.1 == k' with
      | true =>
        rw [List.find?_cons_of_pos (by exact hk'), List.find?_cons_of_pos (by exact hk')]
        simp [← hek, eq_of_beq hk']
      | false =>
        have hne : k' ≠ k := by
          rintro rfl
          rw [hk] at hk'
          cases hk'
        have hneg : ¬(e.1 == k') = true := by
          rw [hk']
          decide
        rw [List.find?_cons_of_neg (by exact hneg), List.find?_cons_of_neg (by exact hneg)]
        cases (l.find? fun e => e.1 == k') with
        | none => rfl
        | some x => simp [hne]
    | false =>
      rw [if_neg (by simp)]
      cases hk' : e.1 == k' with
      | true =>
        have hne : k' ≠ k := by
          rintro rfl
          rw [hk] at hk'
          cases hk'
        rw [List.find?_cons_of_pos (by exact hk'), List.find?_cons_of_pos (by exact hk')]
        simp [hne]
      | false =>
        have hneg : ¬(e.1 == k') = true := by
          rw [hk']
          decide
        rw [List.find?_cons_of_neg (by exact hneg), List.find?_cons_of_neg (by exact hneg),
          ih]

theorem recordAt_edit (chan : Text) (f : JsonRecord → JsonRecord) (k : Text) :
    (s.edit chan f).recordAt k = (s.recordAt k).map fun r => if k = chanFold chan then f r else r :=
  find?_editAt ..

/-! ## 3. What a command keeps

The relation between two states that a command must not leave: which channels may have changed, and
who may have become identified. It composes. -/

/-- From `s` to `t` only the channels of `ok` have changed, and only `who` has become identified,
for a channel of `okId` and at the time `at_`. -/
structure Within (ok okId : Text → Prop) (who : Text) (at_ : Int) (s t : ChanRegistry) : Prop where
  record : ∀ k, ¬ok k → (t.recordAt k).map JsonRecord.rights = (s.recordAt k).map JsonRecord.rights
  session : ∀ e ∈ t.identified, e ∈ s.identified ∨ okId e.1 ∧ e.2 = (who, at_)
  keys : t.keys.Sublist s.keys
  register : ∀ p ∈ t.register, p ∈ s.register ∨ chanFold p.chan ∉ t.keys

variable {ok okId : Text → Prop} {who : Text} {at_ : Int}

theorem Within.trans (h : Within ok okId who at_ s t) (h' : Within ok okId who at_ t u) :
    Within ok okId who at_ s u where
  record k hk := (h'.record k hk).trans (h.record k hk)
  session e he := by
    rcases h'.session e he with he | he
    · exact h.session e he
    · exact .inr he
  keys := h'.keys.trans h.keys
  register p hp := by
    rcases h'.register p hp with hp | hp
    · rcases h.register p hp with hp | hp
      · exact .inl hp
      · exact .inr fun hk => hp (h'.keys.subset hk)
    · exact .inr hp

theorem Within.of_eq (hstore : t.store = s.store) (hid : t.identified ⊆ s.identified)
    (hreg : ∀ p ∈ t.register, p ∈ s.register) : Within ok okId who at_ s t where
  record k _ := by rw [recordAt, recordAt, hstore]
  session e he := .inl (hid he)
  keys := by rw [ChanRegistry.keys, ChanRegistry.keys, hstore]
  register p hp := .inl (hreg p hp)

theorem Within.refl (s : ChanRegistry) : Within ok okId who at_ s s :=
  .of_eq rfl (List.Subset.refl _) fun _ hp => hp

theorem Within.of_eq_trans (h : Within ok okId who at_ s t) (hstore : u.store = t.store)
    (hid : u.identified ⊆ t.identified) (hreg : ∀ p ∈ u.register, p ∈ t.register) :
    Within ok okId who at_ s u := h.trans (.of_eq hstore hid hreg)

theorem Within.send (h : Within ok okId who at_ s t) (line : Text) :
    Within ok okId who at_ s (t.send line) :=
  h.of_eq_trans rfl (List.Subset.refl _) fun _ hp => hp

theorem Within.reply (h : Within ok okId who at_ s t) (nick text : Text) :
    Within ok okId who at_ s (t.reply cfg nick text) := h.send _

theorem Within.sendAll (h : Within ok okId who at_ s t) (lines : List Text) :
    Within ok okId who at_ s (t.sendAll lines) :=
  h.of_eq_trans rfl (List.Subset.refl _) fun _ hp => hp

theorem Within.storeSave (h : Within ok okId who at_ s t) : Within ok okId who at_ s t.storeSave :=
  h.of_eq_trans rfl (List.Subset.refl _) fun _ hp => hp

theorem Within.pruneIdentified (h : Within ok okId who at_ s t) :
    Within ok okId who at_ s (t.pruneIdentified o) :=
  h.of_eq_trans rfl (List.filter_subset_self ..) fun _ hp => hp

theorem Within.grantedMark (h : Within ok okId who at_ s t) (chan nick : Text) :
    Within ok okId who at_ s (t.grantedMark chan nick) :=
  h.of_eq_trans rfl (List.Subset.refl _) fun _ hp => hp

theorem Within.grantedUnmark (h : Within ok okId who at_ s t) (chan nick : Text) :
    Within ok okId who at_ s (t.grantedUnmark chan nick) :=
  h.of_eq_trans rfl (List.Subset.refl _) fun _ hp => hp

theorem Within.giveFounder (h : Within ok okId who at_ s t) (chan nick : Text) :
    Within ok okId who at_ s (t.giveFounder cfg chan nick) := h.send _

theorem Within.watchMembers (h : Within ok okId who at_ s t) (chan : Text) :
    Within ok okId who at_ s (t.watchMembers cfg chan) := (h.send _).send _

theorem Within.clearChan (h : Within ok okId who at_ s t) (chan : Text) :
    Within ok okId who at_ s (t.clearChan chan) :=
  h.of_eq_trans rfl (List.filter_subset_self ..) fun _ hp => hp

theorem Within.ite {c : Prop} [Decidable c] (h : Within ok okId who at_ s t)
    (h' : Within ok okId who at_ s u) : Within ok okId who at_ s (if c then t else u) := by
  split
  · exact h
  · exact h'

/-- A record that may be changed, or a change that is bookkeeping. -/
theorem Within.edit (h : Within ok okId who at_ s t) {chan : Text} {f : JsonRecord → JsonRecord}
    (hf : ok (chanFold chan) ∨ ∀ r, (f r).rights = r.rights) :
    Within ok okId who at_ s (t.edit chan f) := by
  refine h.trans ⟨fun k hk => ?_, fun e he => .inl he, ?_, fun p hp => .inl hp⟩
  · rw [recordAt_edit, Option.map_map]
    congr 1
    funext r
    rw [Function.comp]
    split
    · next hchan => exact (hf.resolve_left fun hok => hk (hchan ▸ hok)) r
    · rfl
  · rw [ChanRegistry.keys, ChanRegistry.edit, keys_editAt]
    exact List.Sublist.refl _

theorem Within.markIdentified (h : Within ok okId who at_ s t) {chan nick : Text}
    (hok : okId (chanFold chan)) (hwho : who = ircCasefold 64 nick) (hat : at_ = o.now) :
    Within ok okId who at_ s (t.markIdentified o chan nick) := by
  rw [ChanRegistry.markIdentified]
  split
  · exact h.pruneIdentified
  · refine (h.pruneIdentified (o := o)).trans
      ⟨fun k _ => rfl, fun e he => ?_, List.Sublist.refl _, fun p hp => .inl hp⟩
    rcases List.mem_append.mp he with he | he
    · refine .inl ?_
      split at he
      · exact List.mem_of_mem_tail he
      · exact he
    · refine .inr ?_
      rw [List.mem_singleton.mp he, hwho, hat]
      exact ⟨hok, rfl⟩

theorem find?_eraseP {key k : Text} (hne : k ≠ key) (l : List (Text × JsonRecord)) :
    ((l.eraseP fun e => e.1 == key).find? fun e => e.1 == k) = l.find? fun e => e.1 == k := by
  induction l with
  | nil => rfl
  | cons e l ih =>
    rw [List.eraseP_cons]
    cases he : e.1 == key with
    | true =>
      have hek : ¬(e.1 == k) = true := by
        rw [eq_of_beq he]
        simpa using Ne.symm hne
      rw [cond_true, List.find?_cons_of_neg (by exact hek)]
    | false => rw [cond_false, List.find?_cons, List.find?_cons, ih]

theorem Within.storeDel (h : Within ok okId who at_ s t) {key : Text} (hok : ok key) :
    Within ok okId who at_ s (t.storeDel key) := by
  refine h.trans ⟨fun k hk => ?_, fun e he => .inl he, List.eraseP_sublist.map _,
    fun p hp => .inl hp⟩
  have hne : k ≠ key := by
    rintro rfl
    exact hk hok
  rw [recordAt, recordAt, ChanRegistry.storeDel, find?_eraseP hne]

/-! ## 4. The commands -/

/-- The message shows the password of the channel with this key. -/
def Shown (cfg : RegistryConfig) (o : Moment) (s : ChanRegistry) (text k : Text) : Prop :=
  ∃ r password, s.recordAt k = some r ∧ password <:+: text ∧ Opens cfg o r password

/-- **`check_password` comes first**: what a command does behind it is done with the password. -/
theorem within_guarded {nick chan password : Text} {body : ChanRegistry → ChanRegistry}
    (h : ∀ r t, s.storeGet chan = some r → Opens cfg o r password →
      Within ok okId who at_ t (body t)) :
    Within ok okId who at_ s (s.guarded cfg o nick chan password body) := by
  rw [guarded, checkPassword]
  cases hr : s.storeGet chan with
  | none => exact (Within.refl s).reply _ _
  | some r =>
    simp only []
    by_cases hfail : (s.failSlot o nick).isSome = true
    · rw [if_pos hfail]
      exact (Within.refl s).reply _ _
    · rw [if_neg hfail]
      by_cases hopen : Opens cfg o r password
      · rw [if_pos hopen]
        refine Within.trans ?_ (h r _ hr hopen)
        refine Within.of_eq_trans ((Within.refl s).edit (f := touched o) (.inr fun r => ?_)) rfl
          (List.Subset.refl _) fun _ hp => hp
        rw [touched]
        split
        · rfl
        · exact JsonRecord.rights_recSetNum (by decide) _ _
      · rw [if_neg hopen]
        have hfails : Within ok okId who at_ s { s with
            fails := s.fails.set (s.freeSlot o) (ircCasefold 64 nick, o.now + failCooldown) } :=
          .of_eq rfl (List.Subset.refl _) fun _ hp => hp
        exact hfails.reply _ _

section Commands

variable {text nick args : Text}

/-- What a command of a message may do. -/
abbrev Permitted (cfg : RegistryConfig) (o : Moment) (s : ChanRegistry) (text nick : Text) :
    ChanRegistry → Prop :=
  Within (Shown cfg o s text) (Shown cfg o s text) (ircCasefold 64 nick) o.now s

/-- A command that is behind a password in its words. -/
theorem permitted_guarded {chan password : Text} {body : ChanRegistry → ChanRegistry}
    (hpw : password <:+: text)
    (h : Shown cfg o s text (chanFold chan) → ∀ t,
      Within (Shown cfg o s text) (Shown cfg o s text) (ircCasefold 64 nick) o.now t (body t)) :
    Permitted cfg o s text nick (s.guarded cfg o nick chan password body) :=
  within_guarded fun r t hr hopen => h ⟨r, password, hr, hpw, hopen⟩ t

theorem permitted_reply (line : Text) : Permitted cfg o s text nick (s.reply cfg nick line) :=
  (Within.refl s).reply _ _

theorem permitted_cmdRegister : Permitted cfg o s text nick (s.cmdRegister cfg o nick args) := by
  rw [cmdRegister]
  split
  · next chan password rest _ =>
    split_ifs with hvalid hknown hbusy
    · exact permitted_reply _
    · exact permitted_reply _
    · exact permitted_reply _
    · have hfold : chanFold (clip 128 chan) = chanFold chan := by
        simp [chanFold, ircCasefold, clip, List.take_take]
      have hnew : chanFold (clip 128 chan) ∉ s.keys := by
        rw [hfold, ← recordAt_eq_none]
        exact Option.not_isSome_iff_eq_none.mp hknown
      have hask : Permitted cfg o s text nick
          { s with
            register := some
              ⟨clip 64 nick, clip 128 chan, clip 128 password, clip 64 o.account, o.now⟩ } := by
        refine ⟨fun _ _ => rfl, fun e he => .inl he, List.Sublist.refl _, fun p hp => .inr ?_⟩
        cases hp
        exact hnew
      exact hask.send _
  · exact permitted_reply _

theorem permitted_cmdIdentify (hargs : args <:+: text) :
    Permitted cfg o s text nick (s.cmdIdentify cfg o nick args) := by
  rw [cmdIdentify]
  split
  · next chan password rest heq =>
    refine permitted_guarded ((infix_of_mem_strtok (heq ▸ by simp)).trans hargs) fun hok t => ?_
    exact (((Within.refl t).markIdentified hok rfl rfl).giveFounder _ _).reply _ _
  · exact permitted_reply _

theorem permitted_cmdDrop (hargs : args <:+: text) :
    Permitted cfg o s text nick (s.cmdDrop cfg o nick args) := by
  rw [cmdDrop]
  split
  · next chan password rest heq =>
    refine permitted_guarded ((infix_of_mem_strtok (heq ▸ by simp)).trans hargs) fun hok t => ?_
    refine Within.reply (Within.storeSave (Within.clearChan (Within.storeDel ?_ hok) _)) _ _
    exact .ite (((Within.refl t).send _).send _) ((Within.refl t).send _)
  · exact permitted_reply _

theorem permitted_cmdGuardJoin (hargs : args <:+: text) :
    Permitted cfg o s text nick (s.cmdGuardJoin cfg o nick args) := by
  rw [cmdGuardJoin]
  split
  · next chan password rest heq =>
    refine permitted_guarded ((infix_of_mem_strtok (heq ▸ by simp)).trans hargs) fun hok t => ?_
    exact (((Within.refl t).edit (.inl hok)).storeSave.send _).reply _ _
  · exact permitted_reply _

theorem permitted_cmdGuardPart (hargs : args <:+: text) :
    Permitted cfg o s text nick (s.cmdGuardPart cfg o nick args) := by
  rw [cmdGuardPart]
  split
  · next chan password rest heq =>
    refine permitted_guarded ((infix_of_mem_strtok (heq ▸ by simp)).trans hargs) fun hok t => ?_
    exact (((Within.refl t).edit (.inl hok)).storeSave.send _).reply _ _
  · exact permitted_reply _

theorem permitted_cmdSetpass (hargs : args <:+: text) :
    Permitted cfg o s text nick (s.cmdSetpass cfg o nick args) := by
  rw [cmdSetpass]
  split
  · next chan old new rest heq =>
    refine permitted_guarded ((infix_of_mem_strtok (heq ▸ by simp)).trans hargs) fun hok t => ?_
    split
    · exact (Within.refl t).reply _ _
    · exact ((Within.refl t).edit (.inl hok)).storeSave.reply _ _
  · exact permitted_reply _

theorem permitted_cmdTopiclock (hargs : args <:+: text) :
    Permitted cfg o s text nick (s.cmdTopiclock cfg o nick args) := by
  rw [cmdTopiclock]
  split
  · next chan setting password rest heq =>
    split
    · exact permitted_reply _
    · refine permitted_guarded ((infix_of_mem_strtok (heq ▸ by simp)).trans hargs) fun hok t => ?_
      have hset {f : JsonRecord → JsonRecord} : Within (Shown cfg o s text) (Shown cfg o s text)
          (ircCasefold 64 nick) o.now t (t.edit chan f) := (Within.refl t).edit (.inl hok)
      exact (Within.ite ((hset.edit (.inl hok)).watchMembers _) hset).storeSave.reply _ _
  · exact permitted_reply _

theorem Within.foldl_reply {β : Type} (h : Within ok okId who at_ s t) (line : β → Text)
    (l : List β) :
    Within ok okId who at_ s (l.foldl (fun s b => s.reply cfg nick (line b)) t) := by
  induction l generalizing t with
  | nil => exact h
  | cons b l ih => exact ih (h.reply _ _)

section Words

variable {chan : Text} {words : List Text}

theorem permitted_accessAdd (hwords : ∀ w ∈ words, w <:+: text) :
    Permitted cfg o s text nick (s.accessAdd cfg o nick chan words) := by
  rw [accessAdd.eq_def]
  split
  · next mask level password rest =>
    refine .ite (permitted_reply _) ?_
    refine permitted_guarded (hwords _ (by simp)) fun hok t => ?_
    split
    · exact (Within.refl t).reply _ _
    · refine .ite ((Within.refl t).reply _ _) ?_
      exact (((Within.refl t).edit (.inl hok)).storeSave.reply _ _).send _
  · exact permitted_reply _

theorem permitted_accessDel (hwords : ∀ w ∈ words, w <:+: text) :
    Permitted cfg o s text nick (s.accessDel cfg o nick chan words) := by
  rw [accessDel.eq_def]
  split
  · next mask password rest =>
    refine permitted_guarded (hwords _ (by simp)) fun hok t => ?_
    split
    · exact (Within.refl t).reply _ _
    · refine .ite ?_ ((Within.refl t).storeSave.reply _ _)
      exact (((Within.refl t).edit (.inl hok)).storeSave.reply _ _).send _
  · exact permitted_reply _

theorem permitted_akickAdd (hwords : ∀ w ∈ words, w <:+: text) :
    Permitted cfg o s text nick (s.akickAdd cfg o nick chan words) := by
  rw [akickAdd.eq_def]
  split
  · next mask password rest =>
    refine permitted_guarded (hwords _ (by simp)) fun hok t => ?_
    split
    · exact (Within.refl t).reply _ _
    · have hlist {f : JsonRecord → JsonRecord} : Within (Shown cfg o s text) (Shown cfg o s text)
          (ircCasefold 64 nick) o.now t (t.edit chan f) := (Within.refl t).edit (.inl hok)
      refine .ite (hlist.reply _ _) (.ite (hlist.reply _ _) ?_)
      exact ((hlist.edit (.inl hok)).storeSave.reply _ _).send _
  · exact permitted_reply _

theorem permitted_akickDel (hwords : ∀ w ∈ words, w <:+: text) :
    Permitted cfg o s text nick (s.akickDel cfg o nick chan words) := by
  rw [akickDel.eq_def]
  split
  · next mask password rest =>
    refine permitted_guarded (hwords _ (by simp)) fun hok t => ?_
    split
    · exact (Within.refl t).reply _ _
    · exact ((Within.refl t).edit (.inl hok)).storeSave.reply _ _
  · exact permitted_reply _

theorem permitted_successorSet (hwords : ∀ w ∈ words, w <:+: text) :
    Permitted cfg o s text nick (s.successorSet cfg o nick chan words) := by
  rw [successorSet.eq_def]
  split
  · next mask password rest =>
    refine permitted_guarded (hwords _ (by simp)) fun hok t => ?_
    split
    · exact (Within.refl t).reply _ _
    · exact ((Within.refl t).edit (.inl hok)).storeSave.reply _ _
  · exact permitted_reply _

theorem permitted_successorClaim :
    Permitted cfg o s text nick (s.successorClaim cfg o nick chan words) := by
  rw [successorClaim.eq_def]
  split
  · next password rest =>
    have hprune : Permitted cfg o s text nick (s.pruneIdentified o) :=
      (Within.refl s).pruneIdentified
    refine .ite (permitted_reply _) (.ite (hprune.reply _ _) (.ite (hprune.reply _ _) ?_))
    have hclaim : Permitted cfg o s text nick { s.pruneIdentified o with
        claim := some ⟨clip 64 nick, clip 128 chan, clip 128 password, o.now⟩ } :=
      hprune.of_eq_trans rfl (List.Subset.refl _) fun _ hp => hp
    exact hclaim.send _
  · exact permitted_reply _

end Words

theorem infix_of_words {a b : Text} {words : List Text} (hargs : args <:+: text)
    (h : strtok ' ' args = a :: b :: words) : ∀ w ∈ words, w <:+: text := by
  intro w hw
  refine (infix_of_mem_strtok ?_).trans hargs
  rw [h]
  exact List.mem_cons_of_mem _ (List.mem_cons_of_mem _ hw)

theorem permitted_cmdAccess (hargs : args <:+: text) :
    Permitted cfg o s text nick (s.cmdAccess cfg o nick args) := by
  rw [cmdAccess]
  split
  · next chan sub words heq =>
    have hwords := infix_of_words hargs heq
    split
    · exact permitted_reply _
    · next r _ =>
      refine .ite ?_ (.ite (permitted_accessAdd hwords) (.ite (permitted_accessDel hwords) ?_))
      · exact .ite (permitted_reply _) ((permitted_reply _).foldl_reply _ _)
      · exact permitted_reply _
  · exact permitted_reply _

theorem permitted_cmdAkick (hargs : args <:+: text) :
    Permitted cfg o s text nick (s.cmdAkick cfg o nick args) := by
  rw [cmdAkick]
  split
  · next chan sub words heq =>
    have hwords := infix_of_words hargs heq
    split
    · exact permitted_reply _
    · next r _ =>
      refine .ite ?_ (.ite (permitted_akickAdd hwords) (.ite (permitted_akickDel hwords) ?_))
      · exact .ite (permitted_reply _) ((permitted_reply _).foldl_reply _ _)
      · exact permitted_reply _
  · exact permitted_reply _

theorem permitted_cmdSuccessor (hargs : args <:+: text) :
    Permitted cfg o s text nick (s.cmdSuccessor cfg o nick args) := by
  rw [cmdSuccessor]
  split
  · next chan sub words heq =>
    split
    · exact permitted_reply _
    · refine .ite (permitted_successorSet (infix_of_words hargs heq)) (.ite ?_ (permitted_reply _))
      exact permitted_successorClaim
  · exact permitted_reply _

theorem within_setMlockOption {chan : Text} (hok : ok (chanFold chan)) (t : ChanRegistry)
    (value : Text) : Within ok okId who at_ t (t.setMlockOption cfg chan value) := by
  rw [setMlockOption]
  split
  · exact .refl t
  · next m _ =>
    have hset : Within ok okId who at_ t (t.edit chan fun r => r.setMlock m) :=
      (Within.refl t).edit (.inl hok)
    have hguard : Within ok okId who at_ t ((t.edit chan fun r => r.setMlock m).edit chan fun r =>
        r.recSetBool "guard".toList true) := hset.edit (.inl hok)
    dsimp only
    split
    · exact (Within.ite hset (hguard.send _)).storeSave.sendAll _
    · exact .ite hset (hguard.send _)

theorem within_setOption {chan : Text} (hok : ok (chanFold chan)) (t : ChanRegistry)
    (option opt value : Text) :
    Within ok okId who at_ t (t.setOption cfg nick chan option opt value) := by
  rw [setOption]
  refine .ite ?_ (.ite ?_ (Within.reply (.ite ?_ ?_) _ _))
  · have hset : Within ok okId who at_ t
        (t.edit chan fun r => r.recSetBool opt (caseEq value "on".toList)) :=
      (Within.refl t).edit (.inl hok)
    exact (Within.ite ((hset.edit (.inl hok)).watchMembers _) hset).storeSave.reply _ _
  · exact (((Within.refl t).edit (.inl hok)).storeSave.send _).reply _ _
  · exact within_setMlockOption hok t value
  · exact ((Within.refl t).edit (.inl hok)).storeSave

theorem permitted_cmdSet (hargs : args <:+: text) :
    Permitted cfg o s text nick (s.cmdSet cfg o nick args) := by
  rw [cmdSet]
  split
  · next chan option rest _ =>
    refine .ite (permitted_reply _) (.ite (permitted_reply _) ?_)
    dsimp only
    split
    · exact permitted_reply _
    · refine permitted_guarded ?_ fun hok t => within_setOption hok t _ _ _
      exact (infix_of_lastWord _).trans (((afterWord_suffix _).trans
        (afterWord_suffix _)).isInfix.trans hargs)
  · exact permitted_reply _

theorem permitted_cmdListChannels :
    Permitted cfg o s text nick (s.cmdListChannels cfg o nick args) := by
  have hloop : ∀ pat l shown t, Permitted cfg o s text nick t →
      Permitted cfg o s text nick (listLoop cfg o nick pat l shown t).2 := by
    intro pat l
    induction l with
    | nil => exact fun _ _ ht => ht
    | cons e l ih =>
      intro shown t ht
      rw [listLoop]
      split
      · exact ih _ _ ht
      · have hprune := Within.ite (c := (decide (e.2.recStr "founder".toList ≠ []) &&
          decide (o.account ≠ []) && caseEq (e.2.recStr "founder".toList) o.account) = true) ht
          (ht.pruneIdentified (o := o))
        dsimp only
        split
        · exact ih _ _ hprune
        · split
          · exact hprune.reply _ _
          · exact ih _ _ (hprune.reply _ _)
  exact (hloop _ _ _ _ (.refl s)).reply _ _

/-- The password of `[nick] <password>`. -/
theorem infix_of_targetOf {a : Text} {more : List Text} (h : ∀ w ∈ a :: more, w <:+: text) :
    (targetOf nick a more).2 <:+: text := by
  cases more with
  | nil => exact h a List.mem_cons_self
  | cons b more => exact h b (List.mem_cons_of_mem _ List.mem_cons_self)

theorem permitted_cmdChanmodeOne (hargs : args <:+: text) (name : Text) (sign letter : Char) :
    Permitted cfg o s text nick (s.cmdChanmodeOne cfg o nick args name sign letter) := by
  rw [cmdChanmodeOne]
  split
  · next chan a more heq =>
    refine permitted_guarded (infix_of_targetOf fun w hw => ?_) fun hok t =>
      ((Within.refl t).send _).reply _ _
    exact (infix_of_mem_strtok (heq ▸ List.mem_cons_of_mem _ hw)).trans hargs
  · exact permitted_reply _

theorem permitted_cmdSvcInvite (hargs : args <:+: text) :
    Permitted cfg o s text nick (s.cmdSvcInvite cfg o nick args) := by
  rw [cmdSvcInvite]
  split
  · next chan a more heq =>
    refine permitted_guarded (infix_of_targetOf fun w hw => ?_) fun hok t =>
      ((Within.refl t).send _).reply _ _
    exact (infix_of_mem_strtok (heq ▸ List.mem_cons_of_mem _ hw)).trans hargs
  · exact permitted_reply _

theorem permitted_cmdSvcUnban (hargs : args <:+: text) :
    Permitted cfg o s text nick (s.cmdSvcUnban cfg o nick args) := by
  rw [cmdSvcUnban]
  split
  · next chan a more heq =>
    refine permitted_guarded (infix_of_targetOf fun w hw => ?_) fun hok t =>
      ((Within.refl t).send _).reply _ _
    exact (infix_of_mem_strtok (heq ▸ List.mem_cons_of_mem _ hw)).trans hargs
  · exact permitted_reply _

theorem permitted_cmdSvcKick (hargs : args <:+: text) :
    Permitted cfg o s text nick (s.cmdSvcKick cfg o nick args) := by
  rw [cmdSvcKick]
  split
  · next chan target more c rest _ hrest =>
    refine permitted_guarded ?_ fun hok t => ((Within.refl t).send _).reply _ _
    refine (infix_of_lastWord _).trans ?_
    rw [← hrest]
    exact ((afterWord_suffix _).trans (afterWord_suffix _)).isInfix.trans hargs
  · exact permitted_reply _

theorem permitted_cmdSvcTopic (hargs : args <:+: text) :
    Permitted cfg o s text nick (s.cmdSvcTopic cfg o nick args) := by
  rw [cmdSvcTopic]
  split
  · next chan more c rest _ hrest =>
    refine permitted_guarded ?_ fun hok t => ((Within.refl t).send _).reply _ _
    refine (infix_of_lastWord _).trans ?_
    rw [← hrest]
    exact (afterWord_suffix _).isInfix.trans hargs
  · exact permitted_reply _

/-- **Every command of the table**. -/
theorem permitted_commands (hargs : args <:+: text) :
    ∀ c ∈ commands, Permitted cfg o s text nick (c.2 cfg o s nick args) := by
  intro c hc
  rcases List.mem_append.mp hc with hc | hc
  · rcases List.mem_append.mp hc with hc | hc
    · simp only [List.mem_cons, List.not_mem_nil, or_false] at hc
      rcases hc with rfl | rfl | rfl | rfl | rfl | rfl | rfl | rfl | rfl | rfl | rfl | rfl
      · exact permitted_cmdRegister
      · exact permitted_cmdIdentify hargs
      · exact permitted_cmdDrop hargs
      · exact permitted_cmdGuardJoin hargs
      · exact permitted_cmdGuardPart hargs
      · exact permitted_cmdSetpass hargs
      · exact permitted_cmdTopiclock hargs
      · exact permitted_cmdAccess hargs
      · exact permitted_cmdAkick hargs
      · exact permitted_cmdSuccessor hargs
      · exact permitted_cmdSet hargs
      · exact permitted_cmdListChannels
    · obtain ⟨x, -, rfl⟩ := List.mem_map.mp hc
      exact permitted_cmdChanmodeOne hargs _ _ _
  · simp only [List.mem_cons, List.not_mem_nil, or_false] at hc
    rcases hc with rfl | rfl | rfl | rfl
    · exact permitted_cmdSvcInvite hargs
    · exact permitted_cmdSvcUnban hargs
    · exact permitted_cmdSvcKick hargs
    · exact permitted_cmdSvcTopic hargs

/-- **A message** does what its passwords open. -/
theorem permitted_dispatchPrivmsg (s : ChanRegistry) (nick text : Text) :
    Permitted cfg o s text nick (s.dispatchPrivmsg cfg o nick text) := by
  rw [dispatchPrivmsg]
  split
  · exact .refl s
  · split
    · exact .refl s
    · refine .ite (.refl s) ?_
      split
      · next c hfind =>
        refine permitted_commands ?_ c (List.mem_of_find?_eq_some hfind)
        exact (afterWord_suffix _).isInfix.trans (prefix_of_clip 512 text).isInfix
      · exact permitted_reply _

end Commands

/-! ## 5. What the hub tells -/

theorem within_banAndKick (h : Within ok okId who at_ s t) (chan ban nick reason : Text) :
    Within ok okId who at_ s (t.banAndKick cfg chan ban nick reason) := (h.send _).send _

theorem within_admitted {chan : Text} {m : Comer} {r : JsonRecord}
    (h : Within ok okId (ircCasefold 64 m.nick) o.now s t)
    (hok : isFounder r m = true → okId (chanFold chan)) :
    Within ok okId (ircCasefold 64 m.nick) o.now s (t.admitted cfg o chan m r) := by
  rw [admitted]
  have hentry : Within ok okId (ircCasefold 64 m.nick) o.now s
      (if r.recStr "entrymsg".toList = [] then t
      else t.reply cfg m.nick (r.recStr "entrymsg".toList)) := .ite h (h.reply _ _)
  generalize (if r.recStr "entrymsg".toList = [] then t
    else t.reply cfg m.nick (r.recStr "entrymsg".toList)) = u at *
  split
  · next hf => exact ((hentry.markIdentified (hok hf) rfl rfl).grantedMark _ _).giveFounder _ _
  · exact .ite hentry ((hentry.send _).grantedMark _ _)

theorem within_handleSvcjoin {chan : Text} {m : Comer}
    (hok : ∀ r, s.storeGet chan = some r → isFounder r m = true → okId (chanFold chan)) :
    Within ok okId (ircCasefold 64 m.nick) o.now s (s.handleSvcjoin cfg o chan m) := by
  rw [handleSvcjoin]
  split
  · exact .refl s
  · next r hr =>
    split
    · exact within_banAndKick (.refl s) _ _ _ _
    · have hprune : Within ok okId (ircCasefold 64 m.nick) o.now s (s.pruneIdentified o) :=
        (Within.refl s).pruneIdentified
      refine .ite (.ite ?_ (within_banAndKick hprune _ _ _ _)) ?_
      · exact within_admitted hprune (hok r hr)
      · exact within_admitted (.refl s) (hok r hr)

theorem within_judge {chan : Text} (r : JsonRecord) (ts : Int) (hint restore : Bool) :
    Within ok okId who at_ s (s.judgeIncarnation cfg chan r ts hint restore).2 := by
  rw [judgeIncarnation]
  split
  · exact .refl s
  · have hstamp : Within ok okId who at_ s
        (if 0 < ts ∧ ts ≠ r.recNum "ts".toList then
          (s.edit chan fun r => r.recSetNum "ts".toList ts).storeSave else s) :=
      .ite ((Within.refl s).edit (.inr fun r =>
        JsonRecord.rights_recSetNum (by decide) _ _)).storeSave (.refl s)
    have hinc (v : Verdict) : Within ok okId who at_ s
        { (if 0 < ts ∧ ts ≠ r.recNum "ts".toList then
          (s.edit chan fun r => r.recSetNum "ts".toList ts).storeSave else s) with inc := v } :=
      hstamp.of_eq_trans rfl (List.Subset.refl _) fun _ hp => hp
    exact .ite ((hinc _).sendAll _) (hinc _)

theorem within_enforceMember {chan : Text} {m : Comer} {takeover : Bool}
    (hok : ∀ r, s.storeGet chan = some r → isFounder r m = true → okId (chanFold chan)) :
    Within ok okId (ircCasefold 64 m.nick) o.now s (s.enforceMember cfg o chan m takeover) := by
  rw [enforceMember]
  split
  · exact .refl s
  · next r hr =>
    refine .ite (.refl s) ?_
    split
    · exact within_banAndKick (.refl s) _ _ _ _
    · split
      · next hf =>
        have hgive : Within ok okId (ircCasefold 64 m.nick) o.now s
            (if cfg.founderMode ∈ m.ranks then s else s.giveFounder cfg chan m.nick) :=
          .ite (.refl s) ((Within.refl s).giveFounder chan m.nick)
        exact (hgive.markIdentified (hok r hr hf) rfl rfl).grantedMark _ _
      · have hprune : Within ok okId (ircCasefold 64 m.nick) o.now s (s.pruneIdentified o) :=
          (Within.refl s).pruneIdentified
        dsimp only
        split
        · exact hprune
        · split
          · exact within_banAndKick hprune _ _ _ _
          · exact .ite ((Within.ite hprune (hprune.send _)).grantedUnmark _ _)
              ((Within.ite hprune (hprune.send _)).grantedMark _ _)

/-- The founder does not depend on the timestamp. -/
theorem isFounder_recSetNum (r : JsonRecord) (ts : Int) (m : Comer) :
    isFounder (r.recSetNum "ts".toList ts) m = isFounder r m := by
  have hget : (r.recSetNum "ts".toList ts).get "founder".toList = r.get "founder".toList := by
    have hdelete : ∀ r : JsonRecord,
        (r.delete "ts".toList).find? (fun x => x.1 == "founder".toList) =
          r.find? fun x => x.1 == "founder".toList := by
      intro r
      induction r with
      | nil => rfl
      | cons x r ih =>
        rw [JsonRecord.delete] at ih ⊢
        rw [List.eraseP_cons]
        cases hx : x.1 == "ts".toList with
        | true =>
          have hother : ¬(x.1 == "founder".toList) = true := by
            rw [eq_of_beq hx]
            decide
          rw [cond_true, List.find?_cons_of_neg (by exact hother)]
        | false => rw [cond_false, List.find?_cons, List.find?_cons, ih]
    rw [JsonRecord.get, JsonRecord.get, JsonRecord.recSetNum, JsonRecord.add, List.find?_append,
      hdelete]
    have hnone : ([("ts".toList, JsonItem.number (JsonText.nearestDouble ts))] : JsonRecord).find?
        (fun x => x.1 == "founder".toList) = none := rfl
    rw [hnone, Option.or_none]
  have hstr : (r.recSetNum "ts".toList ts).recStr "founder".toList =
      r.recStr "founder".toList := by
    rw [JsonRecord.recStr, JsonRecord.recStr, JsonRecord.getText, JsonRecord.getText, hget]
  rw [isFounder, isFounder, hstr]

theorem store_ite_sendAll {c : Prop} [Decidable c] (t : ChanRegistry) (lines : List Text) :
    (if c then t.sendAll lines else t).store = t.store := by
  split <;> rfl

/-- The record after a judgement is the old one with another timestamp. -/
theorem storeGet_judge {chan : Text} {r r' : JsonRecord} {ts : Int} {hint restore : Bool}
    (hr : s.storeGet chan = some r)
    (hr' : (s.judgeIncarnation cfg chan r ts hint restore).2.storeGet chan = some r') (m : Comer) :
    isFounder r' m = isFounder r m := by
  have hcases : (s.judgeIncarnation cfg chan r ts hint restore).2.store = s.store ∨
      (s.judgeIncarnation cfg chan r ts hint restore).2.store =
        (s.edit chan fun r => r.recSetNum "ts".toList ts).store := by
    rw [judgeIncarnation]
    split
    · exact .inl rfl
    · dsimp only
      rw [store_ite_sendAll]
      split
      · exact .inr rfl
      · exact .inl rfl
  rw [storeGet, recordAt] at hr'
  rcases hcases with hstore | hstore
  · rw [hstore] at hr'
    have heq : some r = some r' := hr.symm.trans hr'
    cases heq
    rfl
  · rw [hstore] at hr'
    have hrec : s.recordAt (chanFold chan) = some r := hr
    have hedit := recordAt_edit (s := s) chan (fun r => r.recSetNum "ts".toList ts) (chanFold chan)
    rw [hrec, Option.map_some, if_pos rfl] at hedit
    have heq : some (r.recSetNum "ts".toList ts) = some r' := hedit.symm.trans hr'
    cases heq
    exact isFounder_recSetNum r ts m

/-- A line about a member identifies the founder only. -/
theorem within_handleHub {line : HubLine} {who : Text}
    (hok : ∀ m ∈ line.member, who = ircCasefold 64 m.nick ∧
      ∀ r, s.storeGet line.chan = some r → isFounder r m = true → okId (chanFold line.chan)) :
    Within ok okId who o.now s (s.handleHub cfg o line) := by
  cases line with
  | svcnew chan stamp =>
    rw [handleHub]
    split
    · exact .refl s
    · next r hr =>
      have hjudge : Within ok okId who o.now s (s.judgeIncarnation cfg chan r
          (stamp.elim 0 Prod.fst) (stamp.elim true Prod.snd) false).2 := within_judge r _ _ _
      exact (Within.ite (hjudge.send _) hjudge).sendAll _
  | svcsync chan m merge =>
    obtain ⟨rfl, hf⟩ := hok m rfl
    exact within_enforceMember hf
  | svcmember chan m stamp =>
    obtain ⟨rfl, hf⟩ := hok m rfl
    rw [handleHub.eq_def]
    dsimp only
    split
    · next ts hint r hr =>
      refine (within_judge r ts hint true).trans (within_enforceMember fun r' hr' hfounder => ?_)
      exact hf r hr ((storeGet_judge hr hr' m).symm.trans hfounder)
    · exact within_enforceMember hf

theorem within_handleTopic (chan setter topic : Text) :
    Within ok okId who at_ s (s.handleTopic cfg chan setter topic) := by
  rw [handleTopic]
  split
  · exact .refl s
  · exact .ite (.refl s) (.ite ((Within.refl s).edit (.inr fun r =>
      JsonRecord.rights_recSetStr (by decide) _ _)).storeSave ((Within.refl s).send _))

theorem within_handleSvctopic (chan topic : Text) :
    Within ok okId who at_ s (s.handleSvctopic chan topic) := by
  rw [handleSvctopic]
  split
  · exact .refl s
  · exact .ite ((Within.refl s).edit (.inr fun r =>
      JsonRecord.rights_recSetStr (by decide) _ _)).storeSave (.refl s)

theorem within_handleKick (chan nick : Text) :
    Within ok okId who at_ s (s.handleKick cfg chan nick) :=
  .ite ((Within.refl s).send _) (.refl s)

/-! ## 6. Registrations come and go

A registration begins with an answer of the hub, changes hands with another, and ends with a sweep
or a DROP. -/

/-- What a store keeps: a key is there once and fits in `strcmp`'s buffers, and a channel that waits
for REGISTER is not there. -/
structure Tidy (s : ChanRegistry) : Prop where
  nodup : s.keys.Nodup
  short : ∀ k ∈ s.keys, k.length < 128
  pending : ∀ p ∈ s.register, chanFold p.chan ∉ s.keys

theorem chanFold_length (chan : Text) : (chanFold chan).length < 128 := by
  simp [chanFold, ircCasefold, clip]

theorem Tidy.within (hs : s.Tidy) (h : Within ok okId who at_ s t) : t.Tidy where
  nodup := h.keys.nodup hs.nodup
  short k hk := hs.short k (h.keys.subset hk)
  pending p hp := by
    rcases h.register p hp with hp | hp
    · exact fun hk => hs.pending p hp (h.keys.subset hk)
    · exact hp

theorem Tidy.recordAt_eq (hs : s.Tidy) {e : Text × JsonRecord} (he : e ∈ s.store) :
    s.recordAt e.1 = some e.2 := by
  have hnodup : (s.store.map Prod.fst).Nodup := hs.nodup
  rw [recordAt]
  generalize s.store = l at he hnodup
  induction l with
  | nil => cases he
  | cons x l ih =>
    rw [List.map_cons, List.nodup_cons] at hnodup
    rcases List.mem_cons.mp he with rfl | he
    · rw [List.find?_cons_of_pos (by simp)]
      rfl
    · have hne : ¬(x.1 == e.1) = true := by
        intro heq
        exact hnodup.1 (eq_of_beq heq ▸ List.mem_map_of_mem he)
      rw [List.find?_cons_of_neg (by exact hne)]
      exact ih he hnodup.2

/-- What `finish_register` adds. -/
theorem finishRegister_cases {p : PendingRegister} {ts : Int} :
    Within ok okId who at_ s (s.finishRegister cfg o p ts) ∨
    ∃ r, Within ok (· = chanFold p.chan) (ircCasefold 64 p.nick) o.now (s.storeAdd p.chan r)
      (s.finishRegister cfg o p ts) := by
  rw [finishRegister]
  split
  · exact .inl ((Within.refl s).reply _ _)
  · next hash _ =>
    refine .inr ⟨newRecord o p hash ts, Within.reply (Within.send ?_ _) _ _⟩
    exact (Within.refl _).storeSave.markIdentified rfl rfl rfl

theorem recordAt_storeAdd {chan k : Text} {r : JsonRecord} (h : k ≠ chanFold chan) :
    (s.storeAdd chan r).recordAt k = s.recordAt k := by
  have hother : ¬(chanFold chan == k) = true := by
    intro heq
    exact h (eq_of_beq heq).symm
  rw [recordAt, storeAdd, List.find?_append, List.find?_cons_of_neg (by exact hother),
    List.find?_nil, Option.or_none, recordAt]

theorem Tidy.storeAdd (hs : s.Tidy) {chan : Text} (r : JsonRecord) (hnew : chanFold chan ∉ s.keys)
    (hreg : s.register = none) : (s.storeAdd chan r).Tidy := by
  have hkeys : (s.storeAdd chan r).keys = s.keys ++ [chanFold chan] := by
    rw [keys, ChanRegistry.storeAdd, List.map_append]
    rfl
  refine ⟨?_, ?_, ?_⟩
  · rw [hkeys]
    refine List.nodup_append.mpr ⟨hs.nodup, List.nodup_singleton _, ?_⟩
    intro a ha b hb hab
    rw [List.mem_singleton.mp hb] at hab
    exact hnew (hab ▸ ha)
  · intro k hk
    rw [hkeys] at hk
    rcases List.mem_append.mp hk with hk | hk
    · exact hs.short k hk
    · rw [List.mem_singleton.mp hk]
      exact chanFold_length chan
  · intro p hp
    have hnone : (s.storeAdd chan r).register = none := hreg
    rw [hnone] at hp
    cases hp

theorem within_finishClaim {p : PendingClaim} {m : Comer}
    (hok : ∀ r, s.storeGet p.chan = some r → r.recStr "successor".toList ≠ [] →
      s.anyIdentified o p.chan = false → entryMatches (r.recStr "successor".toList) m = true →
      ok (chanFold p.chan) ∧ okId (chanFold p.chan)) :
    Within ok okId (ircCasefold 64 p.nick) o.now s (s.finishClaim cfg o p m) := by
  rw [finishClaim]
  split
  · exact (Within.refl s).reply _ _
  · next r hr =>
    have hprune : Within ok okId (ircCasefold 64 p.nick) o.now s (s.pruneIdentified o) :=
      (Within.refl s).pruneIdentified
    dsimp only
    split_ifs with hsucc hany hmatch
    · exact (Within.refl s).reply _ _
    · exact hprune.reply _ _
    · exact hprune.reply _ _
    · split
      · exact hprune.reply _ _
      · obtain ⟨hr1, hr2⟩ := hok r hr hsucc (Bool.eq_false_iff.mpr hany)
          (by simpa using hmatch)
        exact (((hprune.edit (.inl hr1)).storeSave.markIdentified hr2 rfl rfl).giveFounder _
          _).reply _ _

theorem within_giveUpRegister : Within ok okId who at_ s (s.giveUpRegister cfg o) := by
  rw [giveUpRegister]
  split
  · have hnone : Within ok okId who at_ s { s with register := none } :=
      .of_eq rfl (List.Subset.refl _) fun p hp => by cases hp
    exact .ite (hnone.reply _ _) (.refl s)
  · exact .refl s

theorem within_giveUpClaim : Within ok okId who at_ s (s.giveUpClaim cfg o) := by
  rw [giveUpClaim]
  split
  · have hnone : Within ok okId who at_ s { s with claim := none } :=
      .of_eq rfl (List.Subset.refl _) fun p hp => hp
    exact .ite (hnone.reply _ _) (.refl s)
  · exact .refl s

theorem within_expireOne {key : Text} (h : Within ok okId who at_ s t) (hok : ok key) :
    Within ok okId who at_ s (t.expireOne cfg key) := by
  rw [expireOne]
  split
  · exact h
  · refine Within.storeSave (Within.storeDel (Within.clearChan (.ite ?_ ?_) _) hok)
    · exact (h.send _).send _
    · exact h.send _

theorem within_startClock {d : Bool} {n : Int} : Within ok okId who at_ s
    { s with
      store := s.store.map fun e => (e.1, startClock o e.2)
      dirty := d
      lastSweep := n } := by
  refine ⟨fun k _ => ?_, fun e he => .inl he, ?_, fun p hp => .inl hp⟩
  · rw [recordAt, recordAt, List.find?_map, Option.map_map]
    have hkey : ((fun e : Text × JsonRecord => e.1 == k) ∘
        fun e : Text × JsonRecord => (e.1, startClock o e.2)) = fun e => e.1 == k := rfl
    rw [hkey, Option.map_map, Option.map_map]
    congr 1
    funext e
    change (startClock o e.2).rights = e.2.rights
    rw [startClock]
    split
    · rfl
    · exact JsonRecord.rights_add (by decide) _ _
  · rw [keys, keys, List.map_map]
    exact List.Sublist.refl _

/-- **A sweep** deletes what has expired. -/
theorem within_expireSweep (hs : s.Tidy)
    (hok : ∀ k r, s.recordAt k = some r → 0 < cfg.expireDays → expired cfg o r = true → ok k) :
    Within ok okId who at_ s (s.expireSweep cfg o) := by
  rw [expireSweep]
  split
  · exact .refl s
  · next hdays =>
    have hfold : ∀ (l : List Text) (t : ChanRegistry), Within ok okId who at_ s t →
        (∀ k ∈ l, ok k) → Within ok okId who at_ s (l.foldl (fun s key => s.expireOne cfg key) t) := by
      intro l
      induction l with
      | nil => exact fun t ht _ => ht
      | cons k l ih =>
        intro t ht hl
        refine ih _ (within_expireOne ht (hl k List.mem_cons_self)) fun k' hk' => ?_
        exact hl k' (List.mem_cons_of_mem _ hk')
    refine hfold _ _ within_startClock fun k hk => ?_
    obtain ⟨e, he, rfl⟩ := List.mem_map.mp hk
    have hmem := List.mem_filter.mp (List.mem_of_mem_take he)
    have hshort : e.1.length < 128 := hs.short e.1 (List.mem_map_of_mem hmem.1)
    rw [clip_of_fits hshort]
    exact hok e.1 e.2 (hs.recordAt_eq hmem.1) (by omega) hmem.2

/-! ## 7. Every step

`Entitles` and `Identifies` say of an event and a state whether it gives a right. They are the
statement, so they do not mention what the code does. -/

/-- The event gives a right to the channel of this key. It is judged in the state in which the
event comes. -/
inductive Entitles (cfg : RegistryConfig) (s : ChanRegistry) : Event → Text → Prop
  | password {o : Moment} {nick text k : Text} (shown : Shown cfg o s text k) :
    Entitles cfg s (.privmsg o nick text) k
  | registered {o : Moment} {chan nick : Text} {ts : Int} {p : PendingRegister}
    (waits : s.register = some p) (asked : chanFold chan = chanFold p.chan)
    (who : caseEq nick p.nick = true) :
    Entitles cfg s (.whoischanReply o chan nick ['o'] ts) (chanFold p.chan)
  | claimed {o : Moment} {nick user host account : Text} {ident : Bool} {p : PendingClaim}
    {r : JsonRecord} (waits : s.claim = some p) (who : caseEq nick p.nick = true)
    (record : s.storeGet p.chan = some r) (named : r.recStr "successor".toList ≠ [])
    (vacant : s.anyIdentified o p.chan = false)
    (successor : entryMatches (r.recStr "successor".toList)
      ⟨p.nick, user, host, account, ident, []⟩ = true) :
    Entitles cfg s (.whoisuserReply o nick user host account ident) (chanFold p.chan)
  | expired {o : Moment} {k : Text} {r : JsonRecord} (record : s.recordAt k = some r)
    (days : 0 < cfg.expireDays) (old : expired cfg o r = true) : Entitles cfg s (.tick o) k

/-- The event makes who has this nick pass for identified for the channel of this key, from then
on. -/
inductive Earns (cfg : RegistryConfig) (s : ChanRegistry) : Event → Text → Text × Int → Prop
  | password {o : Moment} {nick text k : Text} (shown : Shown cfg o s text k) :
    Earns cfg s (.privmsg o nick text) k (ircCasefold 64 nick, o.now)
  | registered {o : Moment} {chan nick : Text} {ts : Int} {p : PendingRegister}
    (waits : s.register = some p) (asked : chanFold chan = chanFold p.chan)
    (who : caseEq nick p.nick = true) :
    Earns cfg s (.whoischanReply o chan nick ['o'] ts) (chanFold p.chan)
      (ircCasefold 64 p.nick, o.now)
  | claimed {o : Moment} {nick user host account : Text} {ident : Bool} {p : PendingClaim}
    {r : JsonRecord} (waits : s.claim = some p) (who : caseEq nick p.nick = true)
    (record : s.storeGet p.chan = some r) (named : r.recStr "successor".toList ≠ [])
    (vacant : s.anyIdentified o p.chan = false)
    (successor : entryMatches (r.recStr "successor".toList)
      ⟨p.nick, user, host, account, ident, []⟩ = true) :
    Earns cfg s (.whoisuserReply o nick user host account ident) (chanFold p.chan)
      (ircCasefold 64 p.nick, o.now)
  | joined {o : Moment} {chan : Text} {m : Comer} {r : JsonRecord}
    (record : s.storeGet chan = some r) (founder : isFounder r m = true) :
    Earns cfg s (.svcjoin o chan m) (chanFold chan) (ircCasefold 64 m.nick, o.now)
  | listed {o : Moment} {line : HubLine} {m : Comer} {r : JsonRecord}
    (names : line.member = some m) (record : s.storeGet line.chan = some r)
    (founder : isFounder r m = true) :
    Earns cfg s (.hub o line) (chanFold line.chan) (ircCasefold 64 m.nick, o.now)

/-- What becomes of who has this nick: NICK gives another, and nobody is left after QUIT or when the
link comes up again. -/
def follow (nick : Text) : Event → Option Text
  | .nick old new => some (if nick = ircCasefold 64 old then ircCasefold 64 new else nick)
  | .quit gone => if nick = ircCasefold 64 gone then none else some nick
  | .session => none
  | _ => some nick

/-- The entry is one of before, under its holder's nick of now. It keeps the time at which it was
earned. -/
def Kept (s : ChanRegistry) (event : Event) (e : Text × Text × Int) : Prop :=
  ∃ nick, (e.1, nick, e.2.2) ∈ s.identified ∧ follow nick event = some e.2.1

/-- What one step does. -/
structure Stepped (cfg : RegistryConfig) (s : ChanRegistry) (event : Event) (t : ChanRegistry) :
    Prop where
  tidy : t.Tidy
  record : ∀ k, ¬Entitles cfg s event k →
    (t.recordAt k).map JsonRecord.rights = (s.recordAt k).map JsonRecord.rights
  session : ∀ e ∈ t.identified, Kept s event e ∨ Earns cfg s event e.1 e.2

theorem Within.stepped (h : Within ok okId who at_ s t) (hs : s.Tidy) {event : Event}
    (hfollow : ∀ nick, follow nick event = some nick) (hok : ∀ k, ok k → Entitles cfg s event k)
    (hokId : ∀ k, okId k → Earns cfg s event k (who, at_)) : Stepped cfg s event t where
  tidy := hs.within h
  record k hk := h.record k fun hok' => hk (hok k hok')
  session e he := by
    rcases h.session e he with he | ⟨he, hwho⟩
    · exact .inl ⟨e.2.1, he, hfollow _⟩
    · rw [hwho]
      exact .inr (hokId _ he)

/-- Nobody gets a right. -/
abbrev Quiet (s t : ChanRegistry) : Prop := Within (fun _ => False) (fun _ => False) [] 0 s t

theorem Quiet.stepped (h : Quiet s t) (hs : s.Tidy) {event : Event}
    (hfollow : ∀ nick, follow nick event = some nick) : Stepped cfg s event t :=
  Within.stepped h hs hfollow nofun nofun

theorem Tidy.congr (hs : s.Tidy) (hstore : t.store = s.store) (hreg : t.register = s.register) :
    t.Tidy := by
  have hkeys : t.keys = s.keys := by rw [keys, keys, hstore]
  refine ⟨hkeys ▸ hs.nodup, hkeys ▸ hs.short, ?_⟩
  rw [hreg, hkeys]
  exact hs.pending

theorem stepped_whoischanReply (hs : s.Tidy) (o : Moment) (chan nick flag : Text) (ts : Int) :
    Stepped cfg s (.whoischanReply o chan nick flag ts)
      (s.whoischanReply cfg o chan nick flag ts) := by
  have hquiet {u : ChanRegistry} (h : Quiet s u) :
      Stepped cfg s (.whoischanReply o chan nick flag ts) u := h.stepped hs fun _ => rfl
  rw [whoischanReply]
  split
  · exact hquiet (.refl s)
  · next p hp =>
    have hgone : Quiet s { s with register := none } :=
      .of_eq rfl (List.Subset.refl _) fun p hp => by cases hp
    split_ifs with hother hflag
    · exact hquiet (.refl s)
    · subst hflag
      rw [not_or, not_not, Bool.not_eq_false] at hother
      have hcases : Quiet { s with register := none }
            (finishRegister cfg o { s with register := none } p ts) ∨
          ∃ r, Within (fun _ => False) (· = chanFold p.chan) (ircCasefold 64 p.nick) o.now
            ({ s with register := none : ChanRegistry }.storeAdd p.chan r)
            (finishRegister cfg o { s with register := none } p ts) := finishRegister_cases
      rcases hcases with h | ⟨r, h⟩
      · exact hquiet (hgone.trans h)
      · have hnew : chanFold p.chan ∉ s.keys := hs.pending p hp
        have hadd := (hs.within hgone).storeAdd r hnew rfl
        refine ⟨hadd.within h, fun k hk => ?_, fun e he => ?_⟩
        · have hne : k ≠ chanFold p.chan := by
            rintro rfl
            exact hk (.registered hp hother.1 hother.2)
          rw [h.record k id, recordAt_storeAdd hne]
          rfl
        · rcases h.session e he with he | ⟨he, hwho⟩
          · exact .inl ⟨e.2.1, he, rfl⟩
          · rw [hwho, he]
            exact .inr (.registered hp hother.1 hother.2)
    · exact hquiet (hgone.reply _ _)

theorem stepped_whoisuserReply (hs : s.Tidy) (o : Moment) (nick user host account : Text)
    (ident : Bool) : Stepped cfg s (.whoisuserReply o nick user host account ident)
      (s.whoisuserReply cfg o nick user host account ident) := by
  have hquiet {u : ChanRegistry} (h : Quiet s u) :
      Stepped cfg s (.whoisuserReply o nick user host account ident) u := h.stepped hs fun _ => rfl
  rw [whoisuserReply]
  split
  · exact hquiet (.refl s)
  · next p hp =>
    have hgone : Quiet s { s with claim := none } :=
      .of_eq rfl (List.Subset.refl _) fun p hp => hp
    split_ifs with hother huser
    · exact hquiet (.refl s)
    · exact hquiet (hgone.reply _ _)
    · have hwho : caseEq nick p.nick = true := Bool.not_eq_false _ ▸ hother
      have hclaim : Within (Entitles cfg s (.whoisuserReply o nick user host account ident))
          (fun k => Earns cfg s (.whoisuserReply o nick user host account ident) k
            (ircCasefold 64 p.nick, o.now)) (ircCasefold 64 p.nick) o.now { s with claim := none }
          (finishClaim cfg o { s with claim := none } p ⟨p.nick, user, host, account, ident, []⟩) :=
        within_finishClaim fun r hr hnamed hvacant hmatch =>
          ⟨.claimed hp hwho hr hnamed hvacant hmatch, .claimed hp hwho hr hnamed hvacant hmatch⟩
      have hstart : Within (Entitles cfg s (.whoisuserReply o nick user host account ident))
          (fun k => Earns cfg s (.whoisuserReply o nick user host account ident) k
            (ircCasefold 64 p.nick, o.now)) (ircCasefold 64 p.nick) o.now s
          { s with claim := none } := .of_eq rfl (List.Subset.refl _) fun p hp => hp
      exact (hstart.trans hclaim).stepped hs (fun _ => rfl) (fun _ h => h) fun _ h => h

/-- A line about the founder identifies the founder. -/
theorem stepped_handleHub (hs : s.Tidy) (o : Moment) (line : HubLine) :
    Stepped cfg s (.hub o line) (s.handleHub cfg o line) := by
  have hhub : Within (fun _ => False)
      (fun k => Earns cfg s (.hub o line) k
        (ircCasefold 64 ((line.member.map MemberLine.nick).getD []), o.now))
      (ircCasefold 64 ((line.member.map MemberLine.nick).getD [])) o.now s
      (s.handleHub cfg o line) := by
    refine within_handleHub fun m hm => ?_
    have hline : line.member = some m := hm
    rw [hline]
    exact ⟨rfl, fun r hr hf => .listed hline hr hf⟩
  exact hhub.stepped hs (fun _ => rfl) nofun fun _ h => h

/-- **Every step**, of a tidy registry. -/
theorem stepped_step (cfg : RegistryConfig) (hs : s.Tidy) (event : Event) :
    Stepped cfg s event (s.step cfg event) := by
  cases event with
  | privmsg o nick text =>
    exact (permitted_dispatchPrivmsg s nick text).stepped hs (fun _ => rfl) (fun _ h => .password h)
      fun _ h => .password h
  | whoischanReply o chan nick flag ts => exact stepped_whoischanReply hs o chan nick flag ts
  | whoisuserReply o nick user host account ident =>
    exact stepped_whoisuserReply hs o nick user host account ident
  | svcjoin o chan m =>
    have hjoin : Within (fun _ => False)
        (fun k => Earns cfg s (.svcjoin o chan m) k (ircCasefold 64 m.nick, o.now))
        (ircCasefold 64 m.nick) o.now s (s.handleSvcjoin cfg o chan m) :=
      within_handleSvcjoin fun r hr hf => .joined hr hf
    exact hjoin.stepped hs (fun _ => rfl) nofun fun _ h => h
  | hub o line => exact stepped_handleHub hs o line
  | topic chan setter topic =>
    have htopic : Quiet s (s.handleTopic cfg chan setter topic) := within_handleTopic ..
    exact htopic.stepped hs fun _ => rfl
  | svctopic chan topic =>
    have htopic : Quiet s (s.handleSvctopic chan topic) := within_handleSvctopic ..
    exact htopic.stepped hs fun _ => rfl
  | kick chan nick =>
    have hkick : Quiet s (s.handleKick cfg chan nick) := within_handleKick ..
    exact hkick.stepped hs fun _ => rfl
  | quit nick =>
    refine ⟨hs.congr rfl rfl, fun _ _ => rfl, fun e he => .inl ⟨e.2.1, ?_, ?_⟩⟩
    · exact List.mem_of_mem_filter he
    · exact if_neg (of_decide_eq_true (List.mem_filter.mp he).2)
  | nick old new =>
    refine ⟨hs.congr rfl rfl, fun _ _ => rfl, fun e he => ?_⟩
    obtain ⟨x, hx, rfl⟩ := List.mem_map.mp he
    refine .inl ⟨x.2.1, ?_, ?_⟩
    · split
      · exact hx
      · exact hx
    · split
      · next h => rw [follow, if_pos h]
      · next h => rw [follow, if_neg h]
  | tick o =>
    have hsweep : Within (fun k => Entitles cfg s (.tick o) k) (fun _ => False) [] 0 s
        (s.expireSweep cfg o) := within_expireSweep hs fun k r hr hd he => .expired hr hd he
    have htick : Within (fun k => Entitles cfg s (.tick o) k) (fun _ => False) [] 0 s
        (((s.expireSweep cfg o).giveUpRegister cfg o).giveUpClaim cfg o) :=
      (hsweep.trans within_giveUpRegister).trans within_giveUpClaim
    exact htick.stepped hs (fun _ => rfl) (fun _ h => h) nofun
  | saved =>
    have hsaved : Quiet s { s with dirty := false } :=
      .of_eq rfl (List.Subset.refl _) fun _ hp => hp
    exact hsaved.stepped hs fun _ => rfl
  | session => exact ⟨hs.congr rfl rfl, fun _ _ => rfl, nofun⟩

/-! ## 8. Runs -/

/-- **A run of a tidy registry** changes a record only where an event of it entitles to. What
entitles is a command of one who has the level for it, or what the hub reports, in the state in
which the event came. -/
theorem changed_by_right (cfg : RegistryConfig) {s : ChanRegistry} (hs : s.Tidy)
    (events : List Event) (k : Text)
    (h : ((run cfg s events).recordAt k).map JsonRecord.rights ≠
      (s.recordAt k).map JsonRecord.rights) :
    ∃ before event after, events = before ++ event :: after ∧
      Entitles cfg (run cfg s before) event k := by
  induction events generalizing s with
  | nil => exact absurd rfl h
  | cons event events ih =>
    have hstep := stepped_step cfg hs event
    by_cases hright : Entitles cfg s event k
    · exact ⟨[], event, events, rfl, hright⟩
    · rw [run_cons, ← hstep.record k hright] at *
      obtain ⟨before, e, after, rfl, he⟩ := ih hstep.tidy h
      exact ⟨event :: before, e, after, rfl, he⟩

/-- ChanServ, with a hash that only writes a sign in front. -/
def sampleRegistry : RegistryConfig where
  own := ⟨"ChanServ".toList, "services".toList, "services.irc".toList, none⟩
  founderMode := 'q'
  expireDays := 60
  verify password hash := decide (hash = '$' :: password)

/-- A moment of somebody who is not logged in. -/
def sampleMoment (now : Int) : Moment := ⟨now, [], fun password => some ('$' :: password)⟩

/-- Bob asks to register a channel, and the hub says that he is an operator there. -/
def sampleRegister : List Event :=
  [.privmsg (sampleMoment 100) "bob".toList "register #x secret".toList,
    .whoischanReply (sampleMoment 101) "#X".toList "bob".toList ['o'] 90]

theorem tidy_start_nil : (start []).Tidy := ⟨List.nodup_nil, nofun, nofun⟩

theorem changed_by_right_register : ∃ before event after,
    sampleRegister = before ++ event :: after ∧
      Entitles sampleRegistry (run sampleRegistry (start []) before) event "#x".toList :=
  changed_by_right sampleRegistry tidy_start_nil sampleRegister "#x".toList fun h =>
    absurd (congrArg Option.isSome h) (by decide)

/-- **Who is in the table** has been there from the start or has earned it since, and has not
quit. -/
theorem session_of_run {s : ChanRegistry} (hs : s.Tidy) (events : List Event)
    {e : Text × Text × Int} (he : e ∈ (run cfg s events).identified) :
    (∃ nick, (e.1, nick, e.2.2) ∈ s.identified ∧ events.foldlM follow nick = some e.2.1) ∨
    ∃ before event after nick, events = before ++ event :: after ∧
      Earns cfg (run cfg s before) event e.1 (nick, e.2.2) ∧
      after.foldlM follow nick = some e.2.1 := by
  induction events generalizing s with
  | nil => exact .inl ⟨e.2.1, he, rfl⟩
  | cons event events ih =>
    have hstep := stepped_step cfg hs event
    rw [run_cons] at he
    rcases ih hstep.tidy he with ⟨nick, hmem, hend⟩ | ⟨before, e', after, nick, rfl, hearn, hend⟩
    · rcases hstep.session _ hmem with ⟨nick', hmem', hnick⟩ | hearn
      · refine .inl ⟨nick', hmem', ?_⟩
        rw [List.foldlM_cons, hnick]
        exact hend
      · exact .inr ⟨[], event, events, nick, rfl, hearn, hend⟩
    · exact .inr ⟨event :: before, e', after, nick, rfl, hearn, hend⟩

/-- **Who passes for identified** has earned it, at most six hours ago, and has not quit since. A
new nick is followed, so the one who earned it and the one who uses it are the same user under what
may be another name. -/
theorem identified_earned (cfg : RegistryConfig) {s : ChanRegistry} (hs : s.Tidy)
    (hstart : s.identified = []) (events : List Event) (o : Moment) (chan nick : Text)
    (h : (run cfg s events).isIdentified o chan nick = true) :
    ∃ before event after first at_, events = before ++ event :: after ∧
      Earns cfg (run cfg s before) event (chanFold chan) (first, at_) ∧
      after.foldlM follow first = some (ircCasefold 64 nick) ∧ o.now - at_ < identifiedTtl := by
  obtain ⟨e, he, hkey⟩ := List.any_eq_true.mp h
  obtain ⟨hchan, hnick⟩ := of_decide_eq_true hkey
  obtain ⟨hmem, htime⟩ := List.mem_filter.mp he
  rcases session_of_run hs events hmem with
    ⟨n, hin, -⟩ | ⟨before, event, after, n, hsplit, hearn, hend⟩
  · rw [hstart] at hin
    cases hin
  · rw [hchan] at hearn
    rw [hnick] at hend
    exact ⟨before, event, after, n, e.2.2, hsplit, hearn, hend, of_decide_eq_true htime⟩

/-- Bob is identified after his registration, also under another nick. -/
theorem identified_earned_register : ∃ before event after first at_,
    sampleRegister ++ [.nick "bob".toList "rob".toList] = before ++ event :: after ∧
      Earns sampleRegistry (run sampleRegistry (start []) before) event
        (chanFold "#x".toList) (first, at_) ∧
      after.foldlM follow first = some (ircCasefold 64 "rob".toList) ∧ 200 - at_ < identifiedTtl :=
  identified_earned sampleRegistry tidy_start_nil rfl
    (sampleRegister ++ [.nick "bob".toList "rob".toList]) (sampleMoment 200) "#x".toList
    "rob".toList (by decide)

end ChanRegistry

end SekurIRCd
