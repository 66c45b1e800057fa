/-
# Membership is one relation

The two sides of a membership are the same relation in every state, each pair once, and every owner
and admin is op (`membership_sound`): all that comes into a channel is entered on both sides, and
all that leaves goes from both.

Who may come in is another matter.  A connection that has only sent NICK is found by
`server_find_user`, and SAJOIN does not look further: it makes the connection a member, whom no
other server ever hears of.  `members_registered` says that every member has registered, and was
announced, in every run without such a SAJOIN.
-/
import SekurIRCd.Lib.Incidence
import SekurIRCd.Lib.Runs
import SekurIRCd.Net.Members

namespace SekurIRCd

open CLib Incidence

/-! ## 1. Ranks

`Hall` keeps the rank of a member as the bits it is in the code, so that an owner who is no op can
be written down, and that none ever is has to be proved.  A `Rank` cannot be such a thing.  On ranks
that are closed the functions on bits are those on `Rank`, and from there they keep the property. -/

/-- Owners and admins are ops. -/
def OpToo (rank : Finset RankBit) : Prop := .owner ∈ rank ∨ .admin ∈ rank → .op ∈ rank

theorem opToo_empty : OpToo ∅ := by simp [OpToo]

/-- A rank letter does what it does to the ranks of a channel. -/
theorem rankAfter_bits (add : Bool) (b : RankBit) (rank : Rank) :
    rankAfter add b rank.bits = (if add then rank.grant b else rank.revoke b).bits := by
  cases add with
  | true => simp only [rankAfter, Rank.grant, if_true]
  | false =>
    simp only [rankAfter, Rank.revoke, Bool.false_eq_true, if_false]
    split
    next h => rw [h]
    next => rfl

theorem opToo_rankAfter {rank : Finset RankBit} (h : OpToo rank) (add : Bool) (b : RankBit) :
    OpToo (rankAfter add b rank) := by
  have hbits := rankAfter_bits add b ⟨rank, h⟩
  simp only at hbits
  rw [hbits]
  exact (if add then Rank.grant ⟨rank, h⟩ b else Rank.revoke ⟨rank, h⟩ b).closed

/-- And so do the status characters in front of a name. -/
theorem rankFromPrefix_bits : ∀ (tok : Text) (rank : Rank),
    rankFromPrefix rank.bits tok = ((rankFromMarks rank tok).1.bits, (rankFromMarks rank tok).2)
  | [], _ => rfl
  | c :: tok, rank => by
    have howner : insert .owner (insert .op rank.bits) = (rank.grant .owner).bits :=
      (Finset.insert_comm ..).trans (rankAfter_bits true .owner rank)
    have hadmin : insert .admin (insert .op rank.bits) = (rank.grant .admin).bits :=
      (Finset.insert_comm ..).trans (rankAfter_bits true .admin rank)
    have hop : insert .op rank.bits = (rank.grant .op).bits := rankAfter_bits true .op rank
    have hhalfop : insert .halfop rank.bits = (rank.grant .halfop).bits :=
      rankAfter_bits true .halfop rank
    have hvoice : insert .voice rank.bits = (rank.grant .voice).bits :=
      rankAfter_bits true .voice rank
    rw [rankFromPrefix, rankFromMarks, markRank, howner, hadmin, hop, hhalfop, hvoice]
    simp only [rankFromPrefix_bits tok]
    split_ifs <;> rfl

theorem opToo_rankFromPrefix (tok : Text) {rank : Finset RankBit} (h : OpToo rank) :
    OpToo (rankFromPrefix rank tok).1 := by
  have hbits := rankFromPrefix_bits tok ⟨rank, h⟩
  simp only at hbits
  rw [hbits]
  exact (rankFromMarks ⟨rank, h⟩ tok).1.closed

/-- The level of a rank is the one that the checks of a channel compare. -/
theorem rankLevel_bits (rank : Rank) : rankLevel rank.bits = channelRankLevel rank := rfl

/-! ## 2. The two sides

Each side is a list of lists, and the relation between the two is that of `Lib.Incidence`. -/

/-- Who is in a channel. -/
def Hall.clientsOf (s : Hall) (k : Nat) : List Nat :=
  ((s.chans k).elim [] Room.members).map Seat.client

/-- The two sides of the relation. -/
def Hall.books (s : Hall) : Books Nat Nat := ⟨s.channels, s.clientsOf⟩

/-- **What holds in every state.** `vetted` says that no SAJOIN has taken one who had not
registered; where it is false, the fields that need it say nothing. -/
structure HallOk (vetted : Prop) (s : Hall) : Prop where
  fresh : ∀ p c, s.node.conns p = some c → p < s.node.next
  known : ∀ p c, s.node.conns p = some c → c.Known True
  placed : ∀ k chan, s.chans k = some chan → k < s.nextChan
  matched : s.books.Matched
  members : ∀ p k, k ∈ s.channels p → ∃ c, s.node.conns p = some c ∧
    (vetted → c.registered = true ∧ (c.remote = true ∨ (p, k) ∈ s.announced))
  ranks : ∀ k chan, s.chans k = some chan → ∀ m ∈ chan.members, OpToo m.rank

theorem clientsOf_write (s : Hall) (k : Nat) (chan : Room) :
    (s.write k chan).clientsOf = Function.update s.clientsOf k (chan.members.map Seat.client) := by
  funext j
  by_cases hj : j = k
  · subst hj
    simp [Hall.clientsOf, Hall.write]
  · simp [Hall.clientsOf, Hall.write, hj]

theorem clientsOf_of_chan {s : Hall} {k : Nat} {chan : Room} (hk : s.chans k = some chan) :
    s.clientsOf k = chan.members.map Seat.client := by
  rw [Hall.clientsOf, hk, Option.elim_some]

theorem chans_write {s : Hall} {k j : Nat} {chan d : Room} (h : (s.write k chan).chans j = some d) :
    (j = k ∧ d = chan) ∨ s.chans j = some d := by
  change Function.update s.chans k (some chan) j = some d at h
  by_cases hj : j = k
  · rw [hj, Function.update_self] at h
    exact Or.inl ⟨hj, (Option.some.inj h).symm⟩
  · rw [Function.update_of_ne hj] at h
    exact Or.inr h

theorem findMember_isSome_iff (chan : Room) (p : Nat) :
    (chan.findMember p).isSome = true ↔ p ∈ chan.members.map Seat.client := by
  simp [Room.findMember, List.find?_isSome]

/-- A channel is written over with the same members, whatever their ranks. -/
theorem HallOk.write {vetted : Prop} {s : Hall} (h : HallOk vetted s) {k : Nat} {chan d : Room}
    (hk : s.chans k = some chan) (hd : d.members.map Seat.client = chan.members.map Seat.client)
    (hranks : ∀ m ∈ d.members, OpToo m.rank) : HallOk vetted (s.write k d) where
  fresh := h.fresh
  known := h.known
  placed := fun j e he => by
    rcases chans_write he with ⟨rfl, -⟩ | hj
    · exact h.placed j chan hk
    · exact h.placed j e hj
  matched := by
    have hbooks : (s.write k d).books = s.books := by
      rw [Hall.books, clientsOf_write, hd, ← clientsOf_of_chan hk, Function.update_eq_self]
      rfl
    exact hbooks ▸ h.matched
  members := h.members
  ranks := fun j e he => by
    rcases chans_write he with ⟨-, rfl⟩ | hj
    · exact hranks
    · exact h.ranks j e hj

/-! ## 3. What keeps it

One lemma for each elementary change: a channel is made, somebody is seated, somebody goes. -/

section Keeps

variable {vetted : Prop} {s : Hall}

theorem HallOk.created (h : HallOk vetted s) (name : Text) (modes : Finset CMode) (created : Int) :
    HallOk vetted (s.serverGetOrCreateChannel name modes created).1 := by
  unfold Hall.serverGetOrCreateChannel
  split
  next => exact h
  next =>
    have hnone : s.chans s.nextChan = none := by
      cases hc : s.chans s.nextChan with
      | none => rfl
      | some chan => exact absurd (h.placed _ chan hc) (lt_irrefl _)
    refine ⟨h.fresh, h.known, fun j e he => ?_, ?_, h.members, fun j e he => ?_⟩
    · rcases chans_write he with ⟨rfl, -⟩ | hj
      · exact Nat.lt_succ_self _
      · exact Nat.lt_succ_of_lt (h.placed j e hj)
    · have hcols : s.clientsOf s.nextChan = [] := by rw [Hall.clientsOf, hnone]; rfl
      have hbooks : ({ s with nextChan := s.nextChan + 1 }.write s.nextChan
          ⟨ircCasefold chanNameLen name, modes, created, []⟩).books = s.books := by
        rw [Hall.books, clientsOf_write]
        have hupd : Function.update s.clientsOf s.nextChan [] = s.clientsOf := by
          rw [Function.update_eq_self_iff, hcols]
        exact congrArg (Books.mk s.channels) hupd
      exact hbooks ▸ h.matched
    · rcases chans_write he with ⟨-, rfl⟩ | hj
      · simp
      · exact h.ranks j e hj

/-- The channel is where it is said to be; nothing else is new. -/
theorem created_frame (s : Hall) (name : Text) (modes : Finset CMode) (created : Int) :
    let r := s.serverGetOrCreateChannel name modes created
    r.1.chans r.2.1 = some r.2.2 ∧ r.1.node = s.node := by
  unfold Hall.serverGetOrCreateChannel
  simp only
  split
  next x hfind =>
    obtain ⟨j, -, hat⟩ := Option.bind_eq_some_iff.mp hfind
    obtain ⟨chan, hchan, rfl⟩ := Option.map_eq_some_iff.mp hat
    exact ⟨hchan, rfl⟩
  next => exact ⟨Function.update_self .., rfl⟩

theorem chan_of_find {name : Text} {k : Nat} {chan : Room}
    (h : s.serverFindChannel name = some (k, chan)) : s.chans k = some chan := by
  obtain ⟨j, -, hat⟩ := Option.bind_eq_some_iff.mp h
  obtain ⟨chan', hchan, hpair⟩ := Option.map_eq_some_iff.mp hat
  obtain ⟨rfl, rfl⟩ := Prod.mk.inj hpair
  exact hchan

/-- **One who is not in the channel comes in**, on both sides. -/
theorem HallOk.seat (h : HallOk vetted s) {k p : Nat} {chan : Room} (hk : s.chans k = some chan)
    (hnot : (chan.findMember p).isSome = false) {rank : Finset RankBit} (hrank : OpToo rank)
    {c : Conn} (hc : s.node.conns p = some c)
    (hin : vetted → c.registered = true ∧ (c.remote = true ∨ (p, k) ∈ s.announced)) :
    HallOk vetted (s.seat k chan p rank) where
  fresh := h.fresh
  known := h.known
  placed := fun j e he => by
    rcases chans_write he with ⟨rfl, -⟩ | hj
    · exact h.placed j chan hk
    · exact h.placed j e hj
  matched := by
    have hcols : p ∉ s.books.cols k := by
      change p ∉ s.clientsOf k
      rw [clientsOf_of_chan hk, ← findMember_isSome_iff, hnot]
      simp
    have hbooks : (s.seat k chan p rank).books = s.books.enter p k := by
      have hw := clientsOf_write s k { chan with members := chan.members ++ [⟨p, rank⟩] }
      rw [List.map_append, ← clientsOf_of_chan hk] at hw
      exact congrArg (Books.mk _) hw
    exact hbooks ▸ h.matched.enter hcols
  members := fun q j hj => by
    have hrows : j ∈ (s.books.enter p k).rows q := hj
    rcases (Books.mem_rows_enter s.books p q k j).mp hrows with ⟨rfl, rfl⟩ | hold
    · exact ⟨c, hc, hin⟩
    · exact h.members q j hold
  ranks := fun j e he => by
    rcases chans_write he with ⟨-, rfl⟩ | hj
    · intro m hm
      rcases List.mem_append.mp hm with hm | hm
      · exact h.ranks k chan hk m hm
      · rw [List.mem_singleton.mp hm]
        exact hrank
    · exact h.ranks j e hj

theorem HallOk.announce (h : HallOk vetted s) (x : Nat × Nat) :
    HallOk vetted { s with announced := x :: s.announced } :=
  ⟨h.fresh, h.known, h.placed, h.matched, fun q j hj => by
    obtain ⟨c, hc, hin⟩ := h.members q j hj
    exact ⟨c, hc, fun hv => ⟨(hin hv).1, (hin hv).2.imp_right (List.mem_cons_of_mem x)⟩⟩, h.ranks⟩

/-- A local client comes in and is announced, if it has a UID. -/
theorem HallOk.joined (h : HallOk vetted s) {k p : Nat} {chan : Room} (hk : s.chans k = some chan)
    (hnot : (chan.findMember p).isSome = false) {rank : Finset RankBit} (hrank : OpToo rank)
    {c : Conn} (hc : s.node.conns p = some c) (hin : vetted → c.registered = true) :
    HallOk vetted ((s.seat k chan p rank).netsyncChanJoin k p c) := by
  unfold Hall.netsyncChanJoin
  split
  next hno =>
    refine h.seat hk hnot hrank hc fun hv => ?_
    exact absurd hno ((h.known p c hc).named trivial (hin hv))
  next =>
    exact (h.announce (p, k)).seat hk hnot hrank hc fun hv =>
      ⟨hin hv, Or.inr List.mem_cons_self⟩

theorem chans_dropped {k j : Nat} {e : Room} (he : (s.serverMaybeDropChannel k).chans j = some e) :
    s.chans j = some e := by
  unfold Hall.serverMaybeDropChannel at he
  split at he
  · split at he
    · exact he
    · change Function.update s.chans k none j = some e at he
      by_cases hj : j = k
      · rw [hj, Function.update_self] at he
        exact absurd he (by simp)
      · rwa [Function.update_of_ne hj] at he
  · exact he

/-- A channel that nobody is in goes, or does not. -/
theorem books_dropped (s : Hall) (k : Nat) : (s.serverMaybeDropChannel k).books = s.books := by
  unfold Hall.serverMaybeDropChannel
  split
  next chan hk =>
    split
    next => rfl
    next hempty =>
      rw [not_or, not_not] at hempty
      have hcols : Hall.clientsOf { s with chans := Function.update s.chans k none } = s.clientsOf := by
        funext j
        by_cases hj : j = k
        · subst hj
          simp [Hall.clientsOf, hk, hempty.1]
        · simp [Hall.clientsOf, hj]
      exact congrArg (Books.mk s.channels) hcols
  next => rfl

/-- The same clients, with fewer members or channels. Every way out of a channel is of this kind. -/
structure Thinned (s t : Hall) : Prop where
  node : t.node = s.node
  announced : t.announced = s.announced
  nextChan : t.nextChan = s.nextChan
  chans : ∀ j e, t.chans j = some e → ∃ d, s.chans j = some d ∧ ∀ m ∈ e.members, m ∈ d.members

theorem Thinned.refl (s : Hall) : Thinned s s := ⟨rfl, rfl, rfl, fun _ e he => ⟨e, he, fun _ hm => hm⟩⟩

theorem Thinned.trans {s t u : Hall} (h : Thinned s t) (h' : Thinned t u) : Thinned s u where
  node := h'.node.trans h.node
  announced := h'.announced.trans h.announced
  nextChan := h'.nextChan.trans h.nextChan
  chans := fun j e he => by
    obtain ⟨d, hd, hde⟩ := h'.chans j e he
    obtain ⟨c, hc, hcd⟩ := h.chans j d hd
    exact ⟨c, hc, fun m hm => hcd m (hde m hm)⟩

theorem dropped_thinned (s : Hall) (k : Nat) : Thinned s (s.serverMaybeDropChannel k) := by
  have hframe : (s.serverMaybeDropChannel k).node = s.node ∧
      (s.serverMaybeDropChannel k).announced = s.announced ∧
      (s.serverMaybeDropChannel k).nextChan = s.nextChan := by
    unfold Hall.serverMaybeDropChannel
    split
    · split <;> exact ⟨rfl, rfl, rfl⟩
    · exact ⟨rfl, rfl, rfl⟩
  exact ⟨hframe.1, hframe.2.1, hframe.2.2, fun j e he => ⟨e, chans_dropped he, fun m hm => hm⟩⟩

/-- What is thinner is as sound, if the lists of channels are right. -/
theorem HallOk.thinned (h : HallOk vetted s) {t : Hall} (ht : Thinned s t) (hm : t.books.Matched)
    (hsub : ∀ p k, k ∈ t.channels p → k ∈ s.channels p) : HallOk vetted t where
  fresh := ht.node.symm ▸ h.fresh
  known := ht.node.symm ▸ h.known
  placed := fun j e he => by
    obtain ⟨d, hd, -⟩ := ht.chans j e he
    exact ht.nextChan.symm ▸ h.placed j d hd
  matched := hm
  members := fun p k hk => by
    rw [ht.node, ht.announced]
    exact h.members p k (hsub p k hk)
  ranks := fun j e he => by
    obtain ⟨d, hd, hsubm⟩ := ht.chans j e he
    exact fun m hm => h.ranks j d hd m (hsubm m hm)

theorem members_removeMember (chan : Room) (p : Nat) :
    (chan.removeMember p).members.map Seat.client =
      (chan.members.map Seat.client).filter (· ≠ p) := by
  rw [Room.removeMember, List.filter_map]
  congr 1
  refine List.filter_congr fun m _ => ?_
  simp [bne, Function.comp, beq_eq_decide]

theorem removed_thinned {k : Nat} {chan : Room} (hk : s.chans k = some chan) (p : Nat) :
    Thinned s (s.write k (chan.removeMember p)) := by
  refine ⟨rfl, rfl, rfl, fun j e he => ?_⟩
  rcases chans_write he with ⟨rfl, rfl⟩ | hj
  · exact ⟨chan, hk, fun m hm => List.mem_of_mem_filter hm⟩
  · exact ⟨e, hj, fun m hm => hm⟩

theorem cols_removeMember {k : Nat} {chan : Room} (hk : s.chans k = some chan) (p : Nat) :
    (s.write k (chan.removeMember p)).books = s.books.dropCol p k := by
  have hw := clientsOf_write s k (chan.removeMember p)
  rw [members_removeMember, ← clientsOf_of_chan hk] at hw
  exact congrArg (Books.mk s.channels) hw

/-- **A member leaves**, on both sides. -/
theorem HallOk.unseat (h : HallOk vetted s) {k : Nat} {chan : Room} (hk : s.chans k = some chan)
    (p : Nat) : HallOk vetted (s.unseat k chan p) := by
  have hbooks : (s.unseat k chan p).books = s.books.leave p k := by
    rw [Hall.unseat, books_dropped, Books.leave, ← cols_removeMember hk p]
    rfl
  refine h.thinned ?_ (hbooks ▸ h.matched.leave p k) fun q j hj => ?_
  · have hout : Thinned s ((s.write k (chan.removeMember p)).serverDetachMembership p k) := by
      obtain ⟨hnode, hann, hnext, hchans⟩ := removed_thinned hk p
      exact ⟨hnode, hann, hnext, hchans⟩
    exact hout.trans (dropped_thinned _ k)
  · have hrows : j ∈ (s.books.leave p k).rows q := hbooks ▸ hj
    change j ∈ Function.update s.channels p ((s.channels p).erase k) q at hrows
    by_cases hq : q = p
    · subst hq
      rw [Function.update_self] at hrows
      exact List.mem_of_mem_erase hrows
    · rwa [Function.update_of_ne hq] at hrows

theorem removeFrom_keeps (p : Nat) (s : Hall) (k : Nat) :
    Thinned s (s.removeFrom p k) ∧ (s.removeFrom p k).books = s.books.dropCol p k := by
  unfold Hall.removeFrom
  split
  next chan hk =>
    exact ⟨(removed_thinned hk p).trans (dropped_thinned _ k),
      (books_dropped _ k).trans (cols_removeMember hk p)⟩
  next hk =>
    refine ⟨.refl s, ?_⟩
    have hcols : s.clientsOf k = [] := by rw [Hall.clientsOf, hk]; rfl
    have hupd : Function.update s.clientsOf k ((s.clientsOf k).filter (· ≠ p)) = s.clientsOf := by
      rw [Function.update_eq_self_iff, hcols]
      rfl
    exact congrArg (Books.mk s.channels) hupd.symm

theorem foldl_removeFrom (p : Nat) : ∀ (ks : List Nat) (s : Hall),
    Thinned s (ks.foldl (Hall.removeFrom p) s) ∧
      (ks.foldl (Hall.removeFrom p) s).books = ks.foldl (fun t k => t.dropCol p k) s.books
  | [], s => ⟨.refl s, rfl⟩
  | k :: ks, s => by
    obtain ⟨hthin, hbooks⟩ := removeFrom_keeps p s k
    obtain ⟨hthin', hbooks'⟩ := foldl_removeFrom p ks (s.removeFrom p k)
    exact ⟨hthin.trans hthin', hbooks'.trans (by rw [hbooks]; rfl)⟩

theorem HallOk.leaveAllChannels (h : HallOk vetted s) (p : Nat) :
    HallOk vetted (s.leaveAllChannels p) ∧ (s.leaveAllChannels p).node = s.node ∧
      (s.leaveAllChannels p).channels = Function.update s.channels p [] := by
  obtain ⟨hthin, hfold⟩ := foldl_removeFrom p (s.channels p) s
  have hbooks : (s.leaveAllChannels p).books = s.books.leaveAll p := by
    have hlist : s.books.rows p = s.channels p := rfl
    rw [Books.leaveAll, hlist, ← hfold]
    rfl
  have hrows : (s.leaveAllChannels p).channels = Function.update s.channels p [] :=
    (congrArg Books.rows hbooks).trans (Books.rows_leaveAll s.books p)
  refine ⟨h.thinned ⟨hthin.node, hthin.announced, hthin.nextChan, hthin.chans⟩
    (hbooks ▸ h.matched.leaveAll p) fun q j hj => ?_, hthin.node, hrows⟩
  rw [hrows] at hj
  by_cases hq : q = p
  · rw [hq, Function.update_self] at hj
    exact absurd hj List.not_mem_nil
  · rwa [Function.update_of_ne hq] at hj

theorem leaveAllOf_keeps : ∀ (ps : List Nat) {s : Hall}, HallOk vetted s →
    HallOk vetted (ps.foldl Hall.leaveAllChannels s) ∧
      (ps.foldl Hall.leaveAllChannels s).node = s.node ∧
      ∀ p, (p ∈ ps ∨ s.channels p = []) → (ps.foldl Hall.leaveAllChannels s).channels p = []
  | [], _, h => ⟨h, rfl, fun p hp => hp.resolve_left List.not_mem_nil⟩
  | q :: ps, s, h => by
    obtain ⟨hq, hnode, hrows⟩ := h.leaveAllChannels q
    obtain ⟨hps, hnode', hnil⟩ := leaveAllOf_keeps ps hq
    refine ⟨hps, hnode'.trans hnode, fun p hp => hnil p ?_⟩
    rw [hrows]
    by_cases hpq : p = q
    · exact Or.inr (by rw [hpq, Function.update_self])
    · rw [Function.update_of_ne hpq]
      exact hp.imp_left fun hp => (List.mem_cons.mp hp).resolve_left hpq

/-- **The clients change**: those who go leave all their channels first. -/
theorem HallOk.withNode (h : HallOk vetted s) {t : Node} (ht : Evolves True s.node t) :
    HallOk vetted (s.withNode t) := by
  obtain ⟨hgone, hnode, hnil⟩ := leaveAllOf_keeps ((List.range s.node.next).filter fun p =>
    (s.node.conns p).isSome && (t.conns p).isNone) h
  refine ⟨fun p d hd => ?_, fun p d hd => ?_, hgone.placed, hgone.matched, fun p k hk => ?_,
    hgone.ranks⟩
  · rcases ht.conns p d hd with ⟨c, hc, -⟩ | ⟨-, hlt, -⟩
    · exact lt_of_lt_of_le (h.fresh p c hc) ht.next
    · exact hlt
  · rcases ht.conns p d hd with ⟨c, hc, hgrows⟩ | ⟨-, -, hknown⟩
    · exact hgrows.known (h.known p c hc)
    · exact hknown
  · obtain ⟨c, hc, hin⟩ := hgone.members p k hk
    rw [hnode] at hc
    cases hd : t.conns p with
    | none =>
      -- it was there and is gone, so that its list is empty
      have hp : p ∈ (List.range s.node.next).filter fun p =>
          (s.node.conns p).isSome && (t.conns p).isNone := by
        simp [hc, hd, h.fresh p c hc]
      have hempty : (s.withNode t).channels p = [] := hnil p (Or.inl hp)
      rw [hempty] at hk
      exact absurd hk List.not_mem_nil
    | some d =>
      refine ⟨d, hd, fun hv => ?_⟩
      rcases ht.conns p d hd with ⟨c', hc', hgrows⟩ | ⟨hnew, -, -⟩
      · obtain rfl := Option.some.inj (hc.symm.trans hc')
        exact ⟨hgrows.registered (hin hv).1, (hin hv).2.imp_left fun hr => hgrows.remote.trans hr⟩
      · exact absurd (h.fresh p c hc) (not_lt.mpr hnew)

theorem setRank_clients (chan : Room) (p : Nat) (f : Finset RankBit → Finset RankBit) :
    (chan.setRank p f).members.map Seat.client = chan.members.map Seat.client := by
  rw [Room.setRank, List.map_map]
  refine List.map_congr_left fun m _ => ?_
  simp only [Function.comp_apply]
  split <;> rfl

theorem HallOk.setRank (h : HallOk vetted s) {k : Nat} {chan : Room} (hk : s.chans k = some chan)
    (p : Nat) (add : Bool) (b : RankBit) :
    HallOk vetted (s.write k (chan.setRank p (rankAfter add b))) := by
  refine h.write hk (setRank_clients chan p _) fun m hm => ?_
  obtain ⟨m', hm', rfl⟩ := List.mem_map.mp hm
  split
  · exact opToo_rankAfter (h.ranks k chan hk m' hm') add b
  · exact h.ranks k chan hk m' hm'

/-! ## 4. The operations keep it -/

theorem opToo_first (isNew : Bool) : OpToo (if isNew then {.op} else ∅) := by
  cases isNew <;> simp [OpToo]

theorem HallOk.cmdForceJoin (h : HallOk vetted s) {p : Nat} {c : Conn} (hc : s.node.conns p = some c)
    (hin : vetted → c.registered = true) (name : Text) (now : Int) :
    HallOk vetted (s.cmdForceJoin p c name now) ∧ (s.cmdForceJoin p c name now).node = s.node := by
  unfold Hall.cmdForceJoin
  split
  next => exact ⟨h, rfl⟩
  next =>
    obtain ⟨hchan, hnode⟩ := created_frame s name s.defaultModes now
    have hr := h.created name s.defaultModes now
    simp only
    split
    next => exact ⟨hr, hnode⟩
    next hnot =>
      rw [Bool.not_eq_true] at hnot
      refine ⟨hr.joined hchan hnot (opToo_first _) (hnode.symm ▸ hc) hin, ?_⟩
      unfold Hall.netsyncChanJoin
      split <;> exact hnode

theorem findMember_created {name : Text} {modes : Finset CMode} {created : Int} {p : Nat}
    (h : (s.serverFindChannel name).any (fun x => (x.2.findMember p).isSome) = false) :
    ((s.serverGetOrCreateChannel name modes created).2.2.findMember p).isSome = false := by
  unfold Hall.serverGetOrCreateChannel
  split
  next x hfind =>
    rw [hfind, Option.any_some] at h
    exact h
  next => rfl

theorem HallOk.doJoinOne (h : HallOk vetted s) {p : Nat} {c : Conn} (hc : s.node.conns p = some c)
    (hin : vetted → c.registered = true) (name : Text) (admitted : Bool) (now : Int) :
    HallOk vetted (s.doJoinOne p c name admitted now) := by
  unfold Hall.doJoinOne
  split
  next => exact h
  next =>
    split
    next => exact h
    next hnot =>
      split
      next => exact h
      next =>
        obtain ⟨hchan, hnode⟩ := created_frame s name s.defaultModes now
        exact (h.created name s.defaultModes now).joined hchan
          (findMember_created (Bool.eq_false_iff.mpr hnot)) (opToo_first _) (hnode.symm ▸ hc) hin

theorem HallOk.foldl_joins {op : Hall → Text → Hall} {p : Nat} {c : Conn} {names : List Text}
    (hop : ∀ t : Hall, HallOk vetted t → t.node.conns p = some c → ∀ name ∈ names,
      HallOk vetted (op t name) ∧ (op t name).node = t.node) :
    ∀ {t : Hall}, HallOk vetted t → t.node.conns p = some c → HallOk vetted (names.foldl op t) := by
  induction names with
  | nil => exact fun ht _ => ht
  | cons name names ih =>
    intro t ht hc
    obtain ⟨h1, hnode⟩ := hop t ht hc name List.mem_cons_self
    exact ih (fun u hu huc x hx => hop u hu huc x (List.mem_cons_of_mem name hx)) h1 (hnode.symm ▸ hc)

theorem HallOk.sajoinOne (h : HallOk vetted s) {p : Nat} {c : Conn} (hc : s.node.conns p = some c)
    {name : Text} (hin : vetted → c.registered = true ∨ ircValidChannel name 50 = false) (now : Int) :
    HallOk vetted (s.sajoinOne p c now name) ∧ (s.sajoinOne p c now name).node = s.node := by
  unfold Hall.sajoinOne
  split
  next => exact ⟨h, rfl⟩
  next hvalid =>
    split
    · exact ⟨h, rfl⟩
    · exact h.cmdForceJoin hc (fun hv => (hin hv).resolve_right hvalid) name now

/-- Whom a SAJOIN finds under a nick: no one here, or one who has registered, unless it names no
channel that there could be. -/
def Hall.ReadyFor (s : Hall) (nick chans : Text) : Prop :=
  ∀ p c, s.node.serverFindUser nick = some (p, c) → c.remote = false →
    c.registered = true ∨ ∀ name ∈ strtok ',' (clip 600 chans), ircValidChannel name 50 = false

theorem HallOk.cmdSajoin (h : HallOk vetted s) (nick chans : Text) (now : Int)
    (hin : vetted → s.ReadyFor nick chans) : HallOk vetted (s.cmdSajoin nick chans now) := by
  unfold Hall.cmdSajoin
  split
  next p c hfind =>
    have hc : s.node.conns p = some c := conns_of_find hfind
    split
    next => exact h
    next hlocal =>
      refine HallOk.foldl_joins (p := p) (c := c) (fun t ht htc name hname => ?_) h hc
      refine ht.sajoinOne htc (fun hv => ?_) now
      exact (hin hv p c hfind (Bool.eq_false_iff.mpr hlocal)).imp_right fun hall => hall name hname
  next => exact h

theorem HallOk.svcJoin (h : HallOk vetted s) {p : Nat} {c : Conn} (hc : s.node.conns p = some c)
    (hsvc : c.isService = true) (name : Text) (now : Int) :
    HallOk vetted (s.svcJoin p c name now) := by
  have hreg := (h.known p c hc).foreign (Or.inr hsvc)
  obtain ⟨hjoin, -⟩ := h.cmdForceJoin hc (fun _ => hreg) name now
  unfold Hall.svcJoin
  simp only
  split
  next k chan hfind => exact hjoin.setRank (chan_of_find hfind) p true .op
  next => exact hjoin

theorem HallOk.autoJoins (h : HallOk vetted s) {p : Nat} {c : Conn} (hc : s.node.conns p = some c)
    (hin : vetted → c.registered = true) (now : Int) : HallOk vetted (s.autoJoins p c now) :=
  HallOk.foldl_joins (p := p) (c := c)
    (fun _ ht htc name _ => ht.cmdForceJoin htc hin name now) h hc

/-- The member loop of an SJOIN: each who comes in is a user of another server. -/
theorem HallOk.sjoinLoop (keepRanks : Bool) (k : Nat) : ∀ (toks : List Text) (nj : Nat) {t : Hall},
    HallOk vetted t → HallOk vetted (Hall.sjoinLoop keepRanks k toks nj t)
  | [], _, _, h => h
  | tok :: toks, nj, t, h => by
    rw [Hall.sjoinLoop]
    split
    next => exact h
    next =>
      simp only
      split
      next p u chan hu hk =>
        split
        next => exact HallOk.sjoinLoop keepRanks k toks nj h
        next hnot =>
          rw [not_or, Bool.not_eq_true, Bool.not_eq_false] at hnot
          have hc : t.node.conns p = some u := of_netsyncFindUid hu
          have hrank : OpToo (if keepRanks then (rankFromPrefix ∅ tok).1 else ∅) := by
            split
            · exact opToo_rankFromPrefix tok opToo_empty
            · exact opToo_empty
          have hreg := (h.known p u hc).foreign (Or.inl hnot.1)
          exact HallOk.sjoinLoop keepRanks k toks (nj + 1)
            (h.seat hk hnot.2 hrank hc fun _ => ⟨hreg, Or.inl hnot.1⟩)
      next => exact HallOk.sjoinLoop keepRanks k toks nj h

theorem HallOk.handleSjoin (h : HallOk vetted s) (ts : Int) (name : Text) (modes : Finset CMode)
    (members : Text) (now : Int) : HallOk vetted (s.handleSjoin ts name modes members now) := by
  unfold Hall.handleSjoin
  split
  next => exact h
  next =>
    simp only
    split
    next => exact HallOk.sjoinLoop true _ _ 0 (h.created name modes _)
    next k chan hfind =>
      have hk := chan_of_find hfind
      generalize (if ts ≤ 0 then chan.created else ts) = age
      split
      next =>
        -- every rank is taken away
        refine HallOk.sjoinLoop true k _ 0 (h.write hk ?_ fun m hm => ?_)
        · rw [List.map_map]
          rfl
        · obtain ⟨m', -, rfl⟩ := List.mem_map.mp hm
          exact opToo_empty
      next =>
        split
        next => exact HallOk.sjoinLoop true k _ 0 (h.write hk rfl (h.ranks k chan hk))
        next => exact HallOk.sjoinLoop false k _ 0 h

theorem HallOk.handleJoin (h : HallOk vetted s) {p : Nat} {u : Conn} (hu : s.node.conns p = some u)
    (hremote : u.remote = true) (ts : Int) (name : Text) (now : Int) :
    HallOk vetted (s.handleJoin p ts name now) := by
  unfold Hall.handleJoin
  generalize (if 0 < ts then ts else now) = age
  obtain ⟨hchan, hnode⟩ := created_frame s name ∅ age
  have hr := h.created name ∅ age
  simp only
  split
  next => exact hr
  next hnot =>
    rw [Bool.not_eq_true] at hnot
    have hreg := (h.known p u hu).foreign (Or.inl hremote)
    exact hr.seat hchan hnot opToo_empty (hnode.symm ▸ hu) fun _ => ⟨hreg, Or.inl hremote⟩

theorem HallOk.leaveNamed (h : HallOk vetted s) (p : Nat) (name : Text) :
    HallOk vetted (s.leaveNamed p name) := by
  unfold Hall.leaveNamed
  split
  next k chan hfind =>
    split
    · exact h.unseat (chan_of_find hfind) p
    · exact h
  next => exact h

theorem HallOk.applyRankLetter (h : HallOk vetted s) (q : Nat) (cl : Conn) (oper : Bool) (name : Text)
    (letter : Bool × RankBit × Text) : HallOk vetted (s.applyRankLetter q cl oper name letter) := by
  unfold Hall.applyRankLetter
  split
  next k chan p target hfind _ =>
    split
    next tm _ =>
      split
      · exact h
      split
      · exact h
      split
      · exact h
      · exact h.setRank (chan_of_find hfind) p letter.1 letter.2.1
    next => exact h
  next => exact h

theorem HallOk.handleRankLetter (h : HallOk vetted s) (name : Text) (letter : Bool × RankBit × Text) :
    HallOk vetted (s.handleRankLetter name letter) := by
  unfold Hall.handleRankLetter
  split
  next k chan p u hfind _ =>
    split
    · exact h.setRank (chan_of_find hfind) p letter.1 letter.2.1
    · exact h
  next => exact h

theorem HallOk.setModes (h : HallOk vetted s) (name : Text) (modes : Finset CMode) :
    HallOk vetted (s.setModes name modes) := by
  unfold Hall.setModes
  split
  next k chan hfind =>
    have hk := chan_of_find hfind
    exact h.write hk rfl (h.ranks k chan hk)
  next => exact h

theorem HallOk.rename (h : HallOk vetted s) (old new : Text) (fromLink : Bool) :
    HallOk vetted (s.rename old new fromLink) := by
  unfold Hall.rename
  split
  next k chan hfind =>
    have hk := chan_of_find hfind
    split
    · exact h
    · exact h.write hk rfl (h.ranks k chan hk)
  next => exact h

end Keeps

/-! ## 5. Runs keep it

Both invariants are carried by the same induction: one of them holds in every run, the other under
a condition on SAJOIN. -/

/-- **The condition on an event**: a SAJOIN that is carried out here finds no one, or one who has
registered, or names no channel that there could be. -/
def SajoinsRegistered (s : Hall) : HallEvent → Prop
  | .sajoin nick chans _ => s.ReadyFor nick chans
  | .encapSajoin uid chans _ => ∀ p c, s.node.netsyncFindUid uid = some (p, c) → c.remote = false →
      s.ReadyFor c.nick chans
  | _ => True

theorem HallOk.dispatch {vetted : Prop} {s : Hall} (h : HallOk vetted s) {p : Nat} {f : Conn → Hall}
    (hf : ∀ c, s.node.conns p = some c → c.registered = true → HallOk vetted (f c)) :
    HallOk vetted (s.dispatch p f) := by
  unfold Hall.dispatch
  split
  next c hc =>
    split
    next => exact h
    next hgo =>
      simp only [Bool.or_eq_true, not_or, Bool.not_eq_true', Bool.not_eq_false] at hgo
      exact hf c hc hgo.2
  next => exact h

/-- **One event.**  What holds whatever SAJOIN does, and what holds if it takes no one who has
not registered, are kept alike. -/
theorem hallStep_ok {vetted : Prop} (s : Hall) (e : HallEvent) (h : HallOk vetted s)
    (he : vetted → SajoinsRegistered s e) : HallOk vetted (hallStep s e) := by
  cases e with
  | node e hassigns =>
    have ht := h.withNode (evolves_nodeStep s.node e fun _ => hassigns)
    cases e with
    | ready p uid klined now =>
      simp only [hallStep]
      split
      next c d _ hd =>
        split
        next hdone =>
          simp only [Bool.and_eq_true] at hdone
          exact ht.autoJoins hd (fun _ => hdone.2) now
        next => exact ht
      next => exact ht
    | _ => exact ht
  | join p name admitted now =>
    exact h.dispatch fun c hc hreg => h.doJoinOne hc (fun _ => hreg) name admitted now
  | oper p name now =>
    exact h.dispatch fun c hc hreg => (h.cmdForceJoin hc (fun _ => hreg) name now).1
  | sajoin nick chans now => exact h.cmdSajoin nick chans now he
  | encapSajoin uid chans now =>
    simp only [hallStep]
    split
    next p target hfind =>
      split
      next => exact h
      next hlocal =>
        exact h.cmdSajoin target.nick chans now fun hv =>
          he hv p target hfind (Bool.eq_false_iff.mpr hlocal)
    next => exact h
  | svcJoin p name now =>
    simp only [hallStep]
    split
    next c hc =>
      split
      next hsvc => exact h.svcJoin hc hsvc name now
      next => exact h
    next => exact h
  | sjoin ts name modes members now => exact h.handleSjoin ts name modes members now
  | remoteJoin uid ts name now =>
    simp only [hallStep]
    split
    next p u hfind =>
      obtain ⟨hu, hremote⟩ := Option.filter_eq_some_iff.mp hfind
      exact h.handleJoin (of_netsyncFindUid hu) hremote ts name now
    next => exact h
  | leave p name => exact h.leaveNamed p name
  | ranks p oper name letters =>
    simp only [hallStep]
    split
    next c _ =>
      exact List.foldlRecOn letters _ h fun t ht letter _ => ht.applyRankLetter p c oper name letter
    next => exact h
  | remoteRanks name letters =>
    exact List.foldlRecOn letters _ h fun t ht letter _ => ht.handleRankLetter name letter
  | modes name modes => exact h.setModes name modes
  | rename old new fromLink => exact h.rename old new fromLink

theorem hallStart_ok (vetted : Prop) (n : Nat) (autoJoin : List Text) (defaultModes : Finset CMode) :
    HallOk vetted (Hall.start n autoJoin defaultModes) where
  fresh := fun _ _ h => absurd h (by simp [Hall.start, Node.start])
  known := fun _ _ h => absurd h (by simp [Hall.start, Node.start])
  placed := fun _ _ h => absurd h (by simp [Hall.start])
  matched := Books.matched_empty
  members := fun _ _ h => absurd h (by simp [Hall.start])
  ranks := fun _ _ h => absurd h (by simp [Hall.start])

/-! ## 6. Membership is one relation -/

/-- **Membership is sound**: who is in a channel has it in its list and the other way round, both
once; who is in a channel is there; and owners and admins are ops. -/
structure MembershipSound (s : Hall) : Prop where
  mirror : ∀ p k, p ∈ s.clientsOf k ↔ k ∈ s.channels p
  onceThere : ∀ p k, (s.clientsOf k).count p ≤ 1
  onceListed : ∀ p k, (s.channels p).count k ≤ 1
  connected : ∀ p k, p ∈ s.clientsOf k → (s.node.conns p).isSome = true
  opToo : ∀ k chan, s.chans k = some chan → ∀ m ∈ chan.members, OpToo m.rank

theorem HallOk.sound {vetted : Prop} {s : Hall} (h : HallOk vetted s) : MembershipSound s where
  mirror := h.matched.mirror
  onceThere := fun p k => List.nodup_iff_count_le_one.mp (h.matched.cols k) p
  onceListed := fun p k => List.nodup_iff_count_le_one.mp (h.matched.rows p) k
  connected := fun p k hp => by
    obtain ⟨c, hc, -⟩ := h.members p k ((h.matched.mirror p k).mp hp)
    rw [hc, Option.isSome_some]
  opToo := h.ranks

/-- **Membership is one relation, kept from both sides, and every owner and admin is op**, after
every run. Clients list their channels and channels their members, and no step may change only one
of the two, whether it comes from a client, from a link or from the services. -/
theorem membership_sound (n : Nat) (autoJoin : List Text) (defaultModes : Finset CMode)
    (es : List HallEvent) :
    MembershipSound (es.foldl hallStep (Hall.start n autoJoin defaultModes)) := by
  have hrun : HallOk False (es.foldl hallStep (Hall.start n autoJoin defaultModes)) :=
    List.foldlRecOn es hallStep (hallStart_ok False n autoJoin defaultModes)
      fun s hs e _ => hallStep_ok s e hs False.elim
  exact hrun.sound

/-! ## 7. Members have registered -/

/-- **Members have registered**: each has a UID, and our own were announced. Other servers know a
user only from its announcement, so a JOIN of another would mean nothing to them. -/
structure MembersRegistered (s : Hall) : Prop where
  registered : ∀ p k, p ∈ s.clientsOf k → ∃ c, s.node.conns p = some c ∧ c.registered = true ∧
    c.uid ≠ []
  announced : ∀ p k c, p ∈ s.clientsOf k → s.node.conns p = some c → c.remote = false →
    (p, k) ∈ s.announced

theorem HallOk.registered {s : Hall} (h : HallOk True s) : MembersRegistered s where
  registered := fun p k hp => by
    obtain ⟨c, hc, hin⟩ := h.members p k ((h.matched.mirror p k).mp hp)
    have hreg := (hin trivial).1
    exact ⟨c, hc, hreg, (h.known p c hc).named trivial hreg⟩
  announced := fun p k c hp hc hlocal => by
    obtain ⟨c', hc', hin⟩ := h.members p k ((h.matched.mirror p k).mp hp)
    obtain rfl := Option.some.inj (hc.symm.trans hc')
    exact (hin trivial).2.resolve_left (by simp [hlocal])

/-- **Every member has registered, and was announced**, after every run in which no SAJOIN takes
one who has not registered. The command looks for its target by nick only, and a nick is held from
the moment NICK was given. -/
theorem members_registered (n : Nat) (autoJoin : List Text) (defaultModes : Finset CMode)
    (es : List HallEvent)
    (h : Runs.Throughout hallStep SajoinsRegistered (Hall.start n autoJoin defaultModes) es) :
    MembersRegistered (es.foldl hallStep (Hall.start n autoJoin defaultModes)) := by
  have hstep : ∀ s e, HallOk True s → SajoinsRegistered s e → HallOk True (hallStep s e) :=
    fun s e hs he => hallStep_ok s e hs fun _ => he
  exact (Runs.invariant_of_step hstep es _ (hallStart_ok True n autoJoin defaultModes) h).registered

/-- Alice sends NICK. -/
def demoNick : List HallEvent :=
  [.node .connect trivial, .node (.nick 0 "alice".toList false 100) trivial]

/-- She registers. -/
def demoRegister : List HallEvent :=
  demoNick ++ [.node (.user 0) trivial,
    .node (.ready 0 "001AAAAAA".toList false 100) (by simp [NodeEvent.Assigns])]

/-- Then an oper puts her in `#c`. -/
theorem members_registered_demo :
    MembersRegistered ((demoRegister ++ [HallEvent.sajoin "alice".toList "#c".toList 101]).foldl hallStep
      (Hall.start 30 [] ∅)) := by
  refine members_registered 30 [] ∅ _ ⟨trivial, trivial, trivial, trivial, fun p c hfind _ => Or.inl ?_,
    trivial⟩
  have hreg : ((demoRegister.foldl hallStep (Hall.start 30 [] ∅)).node.serverFindUser
      "alice".toList).all (fun x => x.2.registered) = true := by decide
  have hfound : (demoRegister.foldl hallStep (Hall.start 30 [] ∅)).node.serverFindUser
      "alice".toList = some (p, c) := hfind
  rwa [hfound] at hreg

/-- Before she registers the oper's SAJOIN takes her all the same. -/
theorem sajoin_takes_unregistered : ¬ ∀ es : List HallEvent,
    MembersRegistered (es.foldl hallStep (Hall.start 30 [] ∅)) := by
  intro h
  have hrun := h (demoNick ++ [HallEvent.sajoin "alice".toList "#c".toList 101])
  obtain ⟨c, hc, hreg, -⟩ := hrun.registered 0 0 (by decide)
  have hnot : (((demoNick ++ [HallEvent.sajoin "alice".toList "#c".toList 101]).foldl hallStep
      (Hall.start 30 [] ∅)).node.conns 0).all (fun c : Conn => !c.registered) = true := by decide
  rw [hc, Option.all_some, hreg] at hnot
  exact absurd hnot (by decide)

end SekurIRCd
