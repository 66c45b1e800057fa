/-
# NickServ's mirror of the users

The ircd feeds NickServ with every user that comes, changes its nick or account, and goes.  NickServ
keeps a record of each, in an index by UID and in one by nick.  A record is taken out of the nick
index only if it is the one found there under its nick, since two records may share a nick for a
while: the loser of a nick collision goes after the winner has come.

But then it is the older record that goes, while the newer is found.  It stays in the index and
is freed.  `mirror_exact` says that the indexes are exact in every run in which a record that
loses its nick is the one found under it (and the table does not grow, which turns its chains
around, while two records share a nick).
-/
import SekurIRCd.Client
import SekurIRCd.Lib.HashIndex
import SekurIRCd.Lib.Runs

namespace SekurIRCd

open CLib HashIndex

/-! ## 1. Records and indexes

Records are at addresses, as they may be freed while an index still leads to them. An index is a
list in the order in which a chain is searched. -/

/-- `nsuser_t`.  The deadline of the nick enforcement is left out. -/
structure NsUser where
  uid : Text
  nick : Text
  cf : Text
  user : Text
  host : Text
  ip : Text
  account : Text
  certfp : Text
  server : Text
deriving DecidableEq, Repr

/-- The records that are allocated, at their addresses, and `g_by_uid` and `g_by_nick`. -/
structure NsState where
  next : Nat
  heap : Nat → Option NsUser
  byUid : Index Text Nat
  byNick : Index Text Nat

/-- No users. -/
def nsEmpty : NsState := ⟨0, fun _ => none, Index.empty, Index.empty⟩

namespace NsState

variable (s : NsState)

/-- `user_by_uid`: the record and where it is. -/
def userByUid (uid : Text) : Option (Nat × NsUser) :=
  (s.byUid.lookup uid).bind fun p => (s.heap p).map fun u => (p, u)

/-- A record is written over. -/
def write (p : Nat) (u : NsUser) : NsState := { s with heap := Function.update s.heap p (some u) }

/-- The keys of the two indexes. -/
def uidOf (p : Nat) : Option Text := (s.heap p).map NsUser.uid

def cfOf (p : Nat) : Option Text := (s.heap p).map NsUser.cf

end NsState

/-- A record with another nick, cut to its field. -/
def NsUser.called (u : NsUser) (nick : Text) : NsUser :=
  { u with nick := clip nickLen nick, cf := ircCasefold nickLen nick }

/-- `user_set_nick`; `grows` says that the nick table grows by it. The record is taken out of the
index if it is the one found there, and put in under its new nick. -/
def userSetNick (s : NsState) (p : Nat) (u : NsUser) (nick : Text) (grows : Bool) : NsState :=
  let byNick := if u.cf ≠ [] ∧ s.byNick.lookup u.cf = some p then s.byNick.delete p else s.byNick
  { s.write p (u.called nick) with byNick := byNick.add (u.called nick).cf p grows }

/-- `user_free`. -/
def userFree (s : NsState) (p : Nat) (u : NsUser) : NsState :=
  { s with
    heap := Function.update s.heap p none
    byUid := s.byUid.delete p
    byNick := if s.byNick.lookup u.cf = some p then s.byNick.delete p else s.byNick }

/-- The parameters of SVCUSER behind the nick. -/
def NsUser.described (u : NsUser) (user host ip account certfp server : Text) : NsUser :=
  { u with
    user := clip 32 user
    host := clip 128 host
    ip := clip 64 ip
    account := if account = ['*'] then [] else clip 64 account
    certfp := if certfp = ['*'] then [] else clip 72 certfp
    server := clip 128 server }

/-- A record as it is allocated. -/
def NsUser.blank (uid : Text) : NsUser := ⟨clip 16 uid, [], [], [], [], [], [], [], []⟩

/-- `ev_user`. -/
def evUser (s : NsState) (grows : Bool) (params : List Text) : NsState :=
  match params with
  | uid :: nick :: user :: host :: ip :: account :: certfp :: server :: _ =>
    let describe := fun (s : NsState) (p : Nat) =>
      match s.heap p with
      | some u => s.write p (u.described user host ip account certfp server)
      | none => s
    match s.userByUid uid with
    | some (p, u) =>
      if caseEq u.nick nick = false then describe (userSetNick s p u nick grows) p
      else describe s p
    | none =>
      let u := NsUser.blank uid
      let s := { s.write s.next u with
        next := s.next + 1, byUid := s.byUid.add u.uid s.next false }
      describe (userSetNick s (s.next - 1) u nick grows) (s.next - 1)
  | _ => s

/-- `ns_event`, for the lines of the user feed.  What is told to ChanServ and to the user is left
out. -/
def nsEvent (s : NsState) (grows : Bool) (m : IrcMessage) : NsState :=
  if m.command = "SVCUSER".toList then evUser s grows m.params
  else if m.command = "SVCNICK".toList then
    match m.params with
    | uid :: nick :: _ =>
      match s.userByUid uid with
      | some (p, u) => userSetNick s p u nick grows
      | none => s
    | _ => s
  else if m.command = "SVCQUIT".toList then
    match m.params with
    | uid :: _ =>
      match s.userByUid uid with
      | some (p, u) => userFree s p u
      | none => s
    | _ => s
  else if m.command = "SVCACCOUNT".toList then
    match m.params with
    | uid :: account :: _ =>
      match s.userByUid uid with
      | some (p, u) =>
        s.write p { u with account := if account = ['*'] then [] else clip 64 account }
      | none => s
    | _ => s
  else s

/-! ## 2. Runs -/

/-- A line of the feed.  It names a registered user, whose UID and nick come from the fields of a
client. -/
structure NsLine where
  msg : IrcMessage
  uidFits : ∀ uid ∈ msg.params.head?, uid.length ≤ uidLen
  named : ∀ uid nick rest, msg.params = uid :: nick :: rest → nick ≠ []
  grows : Bool

def nsStep (s : NsState) (e : NsLine) : NsState := nsEvent s e.grows e.msg

/-- The indexes are exact: what is in the nick index is in the other, under the nick it has now;
every user is found by its nick, or a newer one is; and nothing that was freed is in either. -/
structure MirrorOk (s : NsState) : Prop where
  byNick : ∀ e ∈ s.byNick.entries, ∃ u, s.heap e.ptr = some u ∧ e.key = ircCasefold nickLen u.nick ∧
    ∃ f ∈ s.byUid.entries, f.ptr = e.ptr
  byUid : ∀ f ∈ s.byUid.entries, ∃ u, s.heap f.ptr = some u ∧ f.key = u.uid ∧
    ∃ own ∈ s.byNick.entries, own.ptr = f.ptr ∧ ∃ found,
      s.byNick.find (ircCasefold nickLen u.nick) = some found ∧ (found = own ∨ own.age < found.age)

/-- The nick that a line gives its user, if it gives one. -/
def newNick (s : NsState) (m : IrcMessage) : Option Text :=
  match m.params with
  | uid :: nick :: rest =>
    if m.command = "SVCUSER".toList then
      if 6 ≤ rest.length ∧ (s.userByUid uid).all (fun x => !caseEq x.2.nick nick) = true then
        some nick
      else none
    else if m.command = "SVCNICK".toList then some nick
    else none
  | _ => none

/-- The condition on a line: a record that loses its nick, by another or by going, is the one
found under it, and the table does not grow over two records with one nick. -/
def Sole (s : NsState) (e : NsLine) : Prop :=
  (∀ uid ∈ e.msg.params.head?, ∀ p u, s.userByUid uid = some (p, u) →
    (newNick s e.msg).isSome = true ∨ e.msg.command = "SVCQUIT".toList →
      s.byNick.lookup u.cf = some p) ∧
  (e.grows = true → ∀ nick ∈ newNick s e.msg, ∀ uid ∈ e.msg.params.head?,
    Alone (Function.update s.cfOf ((s.userByUid uid).elim s.next Prod.fst)
      (some (ircCasefold nickLen nick))))

/-! ## 3. What keeps the indexes exact -/

/-- The indexes hold just the records, under their keys, and the keys are the records' own. -/
structure NsOk (s : NsState) : Prop where
  byUid : Indexes s.byUid s.uidOf
  byNick : Indexes s.byNick s.cfOf
  uids : Alone s.uidOf
  fresh : ∀ p u, s.heap p = some u → p < s.next
  keyed : ∀ p u, s.heap p = some u → u.cf = ircCasefold nickLen u.nick ∧ u.cf ≠ []

theorem nsEmpty_ok : NsOk nsEmpty where
  byUid := indexes_empty
  byNick := indexes_empty
  uids := fun _ _ _ h => absurd h (by simp [NsState.uidOf, nsEmpty])
  fresh := fun _ _ h => absurd h (by simp [nsEmpty])
  keyed := fun _ _ h => absurd h (by simp [nsEmpty])

theorem uidOf_write (s : NsState) (p : Nat) (u : NsUser) :
    (s.write p u).uidOf = Function.update s.uidOf p (some u.uid) :=
  Function.comp_update (Option.map NsUser.uid) s.heap p (some u)

theorem cfOf_write (s : NsState) (p : Nat) (u : NsUser) :
    (s.write p u).cfOf = Function.update s.cfOf p (some u.cf) :=
  Function.comp_update (Option.map NsUser.cf) s.heap p (some u)

/-- A nick keeps its key when it is cut to its field, and has one when it is not empty. -/
theorem casefold_clip (nick : Text) :
    ircCasefold nickLen (clip nickLen nick) = ircCasefold nickLen nick := by
  rw [ircCasefold, clip_clip, ircCasefold]

theorem casefold_ne_nil {nick : Text} (h : nick ≠ []) : ircCasefold nickLen nick ≠ [] := by
  obtain ⟨c, cs, rfl⟩ := List.exists_cons_of_ne_nil h
  simp [ircCasefold, clip, lower, nickLen]

namespace NsOk

variable {s : NsState} (h : NsOk s)

include h

theorem of_userByUid {uid : Text} {p : Nat} {u : NsUser} (hu : s.userByUid uid = some (p, u)) :
    s.heap p = some u ∧ u.uid = uid := by
  obtain ⟨q, hq, hmap⟩ := Option.bind_eq_some_iff.mp hu
  obtain ⟨v, hv, hpair⟩ := Option.map_eq_some_iff.mp hmap
  obtain ⟨rfl, rfl⟩ := Prod.mk.inj hpair
  refine ⟨hv, ?_⟩
  have hkey := h.byUid.lookup_some hq
  rw [NsState.uidOf, hv] at hkey
  exact Option.some.inj hkey

theorem of_userByUid_none {uid : Text} (hu : s.userByUid uid = none) (p : Nat) :
    s.uidOf p ≠ some uid := by
  intro hp
  have hl := h.byUid.lookup_alone hp fun q hq => h.uids q p uid hq hp
  obtain ⟨v, hv, -⟩ := Option.map_eq_some_iff.mp hp
  rw [NsState.userByUid, hl, Option.bind_some, hv] at hu
  exact absurd hu (by simp)

/-- What is written over a record without its keys. -/
theorem write {p : Nat} {u v : NsUser} (hu : s.heap p = some u) (huid : v.uid = u.uid)
    (hnick : v.nick = u.nick) (hcf : v.cf = u.cf) : NsOk (s.write p v) := by
  have huids : (s.write p v).uidOf = s.uidOf := by
    rw [uidOf_write, huid, Function.update_eq_self_iff, NsState.uidOf, hu]
    rfl
  have hcfs : (s.write p v).cfOf = s.cfOf := by
    rw [cfOf_write, hcf, Function.update_eq_self_iff, NsState.cfOf, hu]
    rfl
  refine ⟨huids ▸ h.byUid, hcfs ▸ h.byNick, huids ▸ h.uids, ?_, ?_⟩
  · intro q w hq
    by_cases hqp : q = p
    · exact hqp ▸ h.fresh p u hu
    · exact h.fresh q w (by simpa [NsState.write, hqp] using hq)
  · intro q w hq
    by_cases hqp : q = p
    · obtain rfl : v = w := by simpa [NsState.write, hqp] using hq
      rw [hnick, hcf]
      exact h.keyed p u hu
    · exact h.keyed q w (by simpa [NsState.write, hqp] using hq)

/-- A record that is found under its nick takes another. -/
theorem setNick {p : Nat} {u : NsUser} {nick : Text} {grows : Bool} (hu : s.heap p = some u)
    (hnick : nick ≠ []) (hfound : s.byNick.lookup u.cf = some p)
    (halone : grows = true → Alone (Function.update s.cfOf p (some (ircCasefold nickLen nick)))) :
    NsOk (userSetNick s p u nick grows) := by
  have hcf : u.cf ≠ [] := (h.keyed p u hu).2
  have hnext : p < s.next := h.fresh p u hu
  have huids : (userSetNick s p u nick grows).uidOf = s.uidOf := by
    refine (uidOf_write s p (u.called nick)).trans (Function.update_eq_self_iff.mpr ?_)
    rw [NsState.uidOf, hu]
    rfl
  refine ⟨?_, ?_, huids ▸ h.uids, ?_, ?_⟩
  · rw [huids]
    exact h.byUid
  · -- it goes out of the index and comes in again
    have hout := h.byNick.delete p
    have hin := hout.add (ircCasefold nickLen nick) (Function.update_self p none s.cfOf)
      (by rwa [Function.update_idem])
    rw [Function.update_idem] at hin
    have hw := cfOf_write s p (u.called nick)
    have hix : (userSetNick s p u nick grows).byNick =
        (s.byNick.delete p).add (ircCasefold nickLen nick) p grows := by
      simp only [userSetNick, if_pos (And.intro hcf hfound), NsUser.called]
    rw [hix]
    exact hw ▸ hin
  · intro q w hq
    by_cases hqp : q = p
    · exact hqp ▸ hnext
    · exact h.fresh q w (by simpa [userSetNick, NsState.write, hqp] using hq)
  · intro q w hq
    by_cases hqp : q = p
    · have hw : u.called nick = w := by simpa [userSetNick, NsState.write, hqp] using hq
      rw [← hw]
      exact ⟨(casefold_clip nick).symm, casefold_ne_nil hnick⟩
    · exact h.keyed q w (by simpa [userSetNick, NsState.write, hqp] using hq)

/-- A record that is found under its nick is freed. -/
theorem free {p : Nat} {u : NsUser} (hfound : s.byNick.lookup u.cf = some p) :
    NsOk (userFree s p u) := by
  have huids : (userFree s p u).uidOf = Function.update s.uidOf p none :=
    Function.comp_update (Option.map NsUser.uid) s.heap p none
  have hcfs : (userFree s p u).cfOf = Function.update s.cfOf p none :=
    Function.comp_update (Option.map NsUser.cf) s.heap p none
  have hlive : ∀ q w, (userFree s p u).heap q = some w → s.heap q = some w := by
    intro q w hq
    by_cases hqp : q = p
    · exact absurd hq (by simp [userFree, hqp])
    · simpa [userFree, hqp] using hq
  refine ⟨huids ▸ h.byUid.delete p, ?_, ?_, fun q w hq => h.fresh q w (hlive q w hq),
    fun q w hq => h.keyed q w (hlive q w hq)⟩
  · have hix : (userFree s p u).byNick = s.byNick.delete p := if_pos hfound
    rw [hix, hcfs]
    exact h.byNick.delete p
  · intro q r k hq hr
    obtain ⟨v, hv, hvk⟩ := Option.map_eq_some_iff.mp hq
    obtain ⟨w, hw, hwk⟩ := Option.map_eq_some_iff.mp hr
    refine h.uids q r k ?_ ?_
    · rw [NsState.uidOf, hlive q v hv, Option.map_some, hvk]
    · rw [NsState.uidOf, hlive r w hw, Option.map_some, hwk]

theorem arrive {uid nick : Text} {grows : Bool} (huid : uid.length ≤ uidLen) (hnick : nick ≠ [])
    (hnew : s.userByUid uid = none) (halone : grows = true →
      Alone (Function.update s.cfOf s.next (some (ircCasefold nickLen nick)))) :
    NsOk (userSetNick { s.write s.next (NsUser.blank uid) with
      next := s.next + 1, byUid := s.byUid.add (NsUser.blank uid).uid s.next false }
      s.next (NsUser.blank uid) nick grows) := by
  have hdead : s.heap s.next = none := by
    cases hp : s.heap s.next with
    | none => rfl
    | some u => exact absurd (h.fresh s.next u hp) (lt_irrefl _)
  have hblank : (NsUser.blank uid).uid = uid :=
    clip_of_fits (lt_of_le_of_lt huid (by decide))
  generalize hs' : userSetNick _ s.next (NsUser.blank uid) nick grows = s'
  have hheap : s'.heap =
      Function.update s.heap s.next (some ((NsUser.blank uid).called nick)) := by
    rw [← hs']
    exact Function.update_idem ..
  have huids : s'.uidOf = Function.update s.uidOf s.next (some uid) := by
    have hw := uidOf_write s s.next ((NsUser.blank uid).called nick)
    rw [← hblank, show (NsUser.blank uid).uid = ((NsUser.blank uid).called nick).uid from rfl, ← hw]
    exact congrArg (Option.map NsUser.uid ∘ ·) hheap
  have hcfs : s'.cfOf = Function.update s.cfOf s.next (some (ircCasefold nickLen nick)) := by
    have hw := cfOf_write s s.next ((NsUser.blank uid).called nick)
    exact (congrArg (Option.map NsUser.cf ∘ ·) hheap).trans hw
  refine ⟨?_, ?_, ?_, ?_, ?_⟩
  · have hnone : s.uidOf s.next = none := by rw [NsState.uidOf, hdead]; rfl
    have hadd := h.byUid.add uid hnone (fun hf : false = true => absurd hf (by simp))
    rw [huids, ← hs']
    exact hblank.symm ▸ hadd
  · have hnone : s.cfOf s.next = none := by rw [NsState.cfOf, hdead]; rfl
    have hadd := h.byNick.add (ircCasefold nickLen nick) hnone halone
    rw [hcfs, ← hs']
    exact hadd
  · rw [huids]
    intro q r k hq hr
    by_cases hqn : q = s.next <;> by_cases hrn : r = s.next
    · rw [hqn, hrn]
    · rw [hqn, Function.update_self] at hq
      rw [Function.update_of_ne hrn, ← hq] at hr
      exact absurd hr (h.of_userByUid_none hnew r)
    · rw [hrn, Function.update_self] at hr
      rw [Function.update_of_ne hqn, ← hr] at hq
      exact absurd hq (h.of_userByUid_none hnew q)
    · rw [Function.update_of_ne hqn] at hq
      rw [Function.update_of_ne hrn] at hr
      exact h.uids q r k hq hr
  · intro q w hq
    have hnext : s'.next = s.next + 1 := by rw [← hs']; rfl
    by_cases hqn : q = s.next
    · omega
    · have := h.fresh q w (by simpa [hheap, hqn] using hq)
      omega
  · intro q w hq
    by_cases hqn : q = s.next
    · have hw : (NsUser.blank uid).called nick = w := by simpa [hheap, hqn] using hq
      rw [← hw]
      exact ⟨(casefold_clip nick).symm, casefold_ne_nil hnick⟩
    · exact h.keyed q w (by simpa [hheap, hqn] using hq)

theorem mirrorOk : MirrorOk s where
  byNick := by
    intro e he
    obtain ⟨u, hu, hkey⟩ := Option.map_eq_some_iff.mp (h.byNick.sound e he)
    obtain ⟨f, hf, hptr⟩ := h.byUid.complete e.ptr u.uid (by rw [NsState.uidOf, hu]; rfl)
    exact ⟨u, hu, hkey ▸ (h.keyed e.ptr u hu).1, f, hf, hptr⟩
  byUid := by
    intro f hf
    obtain ⟨u, hu, hkey⟩ := Option.map_eq_some_iff.mp (h.byUid.sound f hf)
    have hcf : s.cfOf f.ptr = some (ircCasefold nickLen u.nick) := by
      rw [NsState.cfOf, hu, Option.map_some, (h.keyed f.ptr u hu).1]
    obtain ⟨own, hown, hptr, -, hfound⟩ := h.byNick.find_self hcf
    exact ⟨u, hu, hkey.symm, own, hown, hptr, hfound⟩

end NsOk

/-! ## 4. Runs -/

theorem evUser_ok {s : NsState} (h : NsOk s) (e : NsLine)
    (hcmd : e.msg.command = "SVCUSER".toList) (hsole : Sole s e) :
    NsOk (evUser s e.grows e.msg.params) := by
  -- the parameters behind the nick leave the keys alone
  have hdescribed : ∀ (s : NsState) (p : Nat) (user host ip account certfp server : Text), NsOk s →
      NsOk (match s.heap p with
        | some u => s.write p (u.described user host ip account certfp server)
        | none => s) := by
    intro s p user host ip account certfp server h
    cases hu : s.heap p with
    | none => exact h
    | some u => exact h.write hu rfl rfl rfl
  have hfits := e.uidFits
  have hnamed := e.named
  obtain ⟨hfound, halone⟩ := hsole
  unfold newNick at hfound halone
  unfold evUser
  rw [hcmd] at hfound halone
  split
  next uid nick user host ip account certfp server rest hparams =>
    rw [hparams] at hfits hnamed hfound halone
    have hnick : nick ≠ [] := hnamed uid nick _ rfl
    split
    next p u hu =>
      have hlive := (h.of_userByUid hu).1
      split
      next hdiffer =>
        refine hdescribed _ p _ _ _ _ _ _ (h.setNick hlive hnick ?_ fun hg => ?_)
        · exact hfound uid rfl p u hu (Or.inl (by simp [hu, hdiffer]))
        · have hne := halone hg nick (by simp [hu, hdiffer]) uid rfl
          rwa [hu] at hne
      next => exact hdescribed s p _ _ _ _ _ _ h
    next hu =>
      refine hdescribed _ _ _ _ _ _ _ _ (h.arrive (hfits uid rfl) hnick hu fun hg => ?_)
      have hne := halone hg nick (by simp [hu]) uid rfl
      rwa [hu] at hne
  next => exact h

/-- **A line keeps the indexes exact when the record that loses its nick is the one found under
it.** -/
theorem nsStep_ok {s : NsState} (h : NsOk s) (e : NsLine) (hsole : Sole s e) :
    NsOk (nsStep s e) := by
  have hnamed := e.named
  unfold nsStep nsEvent
  split
  next hcmd => exact evUser_ok h e hcmd hsole
  next =>
    obtain ⟨hfound, halone⟩ := hsole
    unfold newNick at hfound halone
    split
    next hcmd =>
      rw [hcmd] at hfound halone
      split
      next uid nick rest hparams =>
        rw [hparams] at hfound halone
        split
        next p u hu =>
          refine h.setNick (h.of_userByUid hu).1 (hnamed uid nick rest hparams) ?_ fun hg => ?_
          · exact hfound uid rfl p u hu (Or.inl (by simp))
          · have hne := halone hg nick (by simp) uid rfl
            rwa [hu] at hne
        next => exact h
      next => exact h
    next =>
      split
      next hcmd =>
        split
        next uid rest hparams =>
          rw [hparams] at hfound
          split
          next p u hu => exact h.free (hfound uid rfl p u hu (Or.inr hcmd))
          next => exact h
        next => exact h
      next =>
        split
        · split
          · split
            next p u hu => exact h.write (h.of_userByUid hu).1 rfl rfl rfl
            next => exact h
          · exact h
        · exact h

/-- **NickServ's mirror is exact** after every run in which a record that loses its nick, by
another or by going, is the one found under it, and the table does not grow over two records with
one nick. -/
theorem mirror_exact (es : List NsLine) (h : Runs.Throughout nsStep Sole nsEmpty es) :
    MirrorOk (es.foldl nsStep nsEmpty) := by
  have hstep : ∀ s e, NsOk s → Sole s e → NsOk (nsStep s e) := fun _ e hs hsole =>
    nsStep_ok hs e hsole
  exact (Runs.invariant_of_step hstep es nsEmpty nsEmpty_ok h).mirrorOk

/-- A line about a user that is found under its nick meets the condition, unless the table
grows. -/
theorem sole_of_found {s : NsState} {e : NsLine} (hg : e.grows = false)
    (hfound : (e.msg.params.head?.bind s.userByUid).all
      (fun x => s.byNick.lookup x.2.cf == some x.1) = true) : Sole s e := by
  refine ⟨fun uid huid p u hu _ => ?_, fun h => absurd h (by simp [hg])⟩
  rw [Option.mem_def.mp huid, Option.bind_some, hu] at hfound
  simpa using hfound

/-- A user comes, from the hub itself. -/
def svcUser (uid nick : Text) (hu : uid.length ≤ uidLen) (hn : nick ≠ []) : NsLine where
  msg := ⟨[], none, "SVCUSER".toList, [uid, nick, ['u'], ['h'], ['i'], ['*'], ['*'], ['s']]⟩
  uidFits := fun _ h => by simpa using Option.some.inj h ▸ hu
  named := fun _ _ _ h => by simp only [List.cons.injEq] at h; exact h.2.1 ▸ hn
  grows := false

/-- A user goes. -/
def svcQuit (uid : Text) (hu : uid.length ≤ uidLen) : NsLine where
  msg := ⟨[], none, "SVCQUIT".toList, [uid]⟩
  uidFits := fun _ h => by simpa using Option.some.inj h ▸ hu
  named := fun _ _ _ h => by simp at h
  grows := false

/-- Two users with nicks of their own come, and the first goes. -/
theorem mirror_exact_demo : MirrorOk
    ([svcUser "001AAAAAA".toList ['x'] (by decide) (by decide),
      svcUser "002AAAAAA".toList ['y'] (by decide) (by decide),
      svcQuit "001AAAAAA".toList (by decide)].foldl nsStep nsEmpty) := by
  refine mirror_exact _ ⟨?_, ?_, ?_, trivial⟩
  · exact sole_of_found rfl (by decide)
  · exact sole_of_found rfl (by decide)
  · exact sole_of_found rfl (by decide)

/-- The loser of a collision goes after the winner has come: its record is freed and stays in the
nick index. -/
theorem loser_stays_in_index : ¬ ∀ es : List NsLine, MirrorOk (es.foldl nsStep nsEmpty) := by
  intro h
  have hrun := h [svcUser "001AAAAAA".toList ['x'] (by decide) (by decide),
    svcUser "002AAAAAA".toList ['x'] (by decide) (by decide), svcQuit "001AAAAAA".toList (by decide)]
  obtain ⟨u, hu, -⟩ := hrun.byNick ⟨['x'], 0, 0⟩ (by decide)
  exact absurd (Option.isSome_iff_exists.mpr ⟨u, hu⟩) (by decide)

end SekurIRCd
