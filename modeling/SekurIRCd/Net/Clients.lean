/-
# What an event does to the clients

Clients come, change and go by events that are about nicks and registrations.  Whatever the event,
a client that was there before has only grown: one who has registered stays registered, and a
client stays local or remote (`evolves_nodeStep`).  Who is new has registered if it is a user of
another server or a service, and no nick is dated before its owner has registered.
-/
import SekurIRCd.Net.NickTable

namespace SekurIRCd

open CLib

/-- Who registers gets a UID. -/
def NodeEvent.Assigns : NodeEvent → Prop
  | .ready _ new _ _ => new ≠ []
  | .service _ new _ => new ≠ []
  | _ => True

/-! ## 1. Growth

The events are those of `Net/State`. What stays true of a client is transitive, so an event may be
taken apart into what it does one after the other. -/

/-- What is true of every client: who has registered has a UID, if all who register are given one,
users of other servers and services have registered, and a nick has no date before. -/
structure Conn.Known (assigned : Prop) (c : Conn) : Prop where
  named : assigned → c.registered = true → c.uid ≠ []
  foreign : c.remote = true ∨ c.isService = true → c.registered = true
  undated : c.registered = false → c.nickTs = 0

/-- What stays true of a client: who has registered stays so, a client stays local or remote, and
what is known of it stays known. -/
structure Conn.Grows (assigned : Prop) (c d : Conn) : Prop where
  registered : c.registered = true → d.registered = true
  remote : d.remote = c.remote
  known : c.Known assigned → d.Known assigned

variable {assigned : Prop}

theorem Conn.Grows.refl (c : Conn) : c.Grows assigned c := ⟨id, rfl, id⟩

theorem Conn.Grows.trans {c d e : Conn} (h : c.Grows assigned d) (h' : d.Grows assigned e) :
    c.Grows assigned e :=
  ⟨fun hr => h'.registered (h.registered hr), h'.remote.trans h.remote, fun hk => h'.known (h.known hk)⟩

/-- **What an event does to the clients**: each was there before, and has grown, or is new. -/
structure Evolves (assigned : Prop) (s t : Node) : Prop where
  next : s.next ≤ t.next
  conns : ∀ p d, t.conns p = some d → (∃ c, s.conns p = some c ∧ c.Grows assigned d) ∨
    (s.next ≤ p ∧ p < t.next ∧ d.Known assigned)

theorem Evolves.of_conns {s t : Node} (hnext : t.next = s.next) (h : t.conns = s.conns) :
    Evolves assigned s t :=
  ⟨hnext.ge, fun _ d hd => Or.inl ⟨d, h ▸ hd, Conn.Grows.refl d⟩⟩

theorem Evolves.refl (s : Node) : Evolves assigned s s := .of_conns rfl rfl

theorem Evolves.trans {s t u : Node} (h : Evolves assigned s t) (h' : Evolves assigned t u) :
    Evolves assigned s u where
  next := h.next.trans h'.next
  conns := fun p e he => by
    rcases h'.conns p e he with ⟨d, hd, hde⟩ | ⟨hnext, hlt, hk⟩
    · rcases h.conns p d hd with ⟨c, hc, hcd⟩ | ⟨hnew, hlt, hk⟩
      · exact Or.inl ⟨c, hc, hcd.trans hde⟩
      · exact Or.inr ⟨hnew, lt_of_lt_of_le hlt h'.next, hde.known hk⟩
    · exact Or.inr ⟨h.next.trans hnext, hlt, hk⟩

/-- A client is written over by one that has grown from it. -/
theorem evolves_write {s : Node} {p : Nat} {c d : Conn} (hc : s.conns p = some c)
    (hcd : c.Grows assigned d) : Evolves assigned s (s.write p d) where
  next := le_rfl
  conns := fun q e he => by
    rcases conns_write s p d he with ⟨rfl, rfl⟩ | ⟨-, hq⟩
    · exact Or.inl ⟨c, hc, hcd⟩
    · exact Or.inl ⟨e, hq, Conn.Grows.refl e⟩

theorem evolves_enter {s : Node} {p : Nat} {c d : Conn} (hc : s.conns p = some c)
    (hcd : c.Grows assigned d) : Evolves assigned s (s.enter p d) := (evolves_write hc hcd).trans (.of_conns rfl rfl)

theorem evolves_new {s : Node} {d : Conn} (hd : d.Known assigned) :
    Evolves assigned s ({ s with next := s.next + 1 }.write s.next d) where
  next := Nat.le_succ _
  conns := fun q e he => by
    rcases conns_write _ s.next d he with ⟨rfl, rfl⟩ | ⟨-, hq⟩
    · exact Or.inr ⟨le_rfl, Nat.lt_succ_self _, hd⟩
    · exact Or.inl ⟨e, hq, Conn.Grows.refl e⟩

theorem evolves_hashDelFound (s : Node) (p : Nat) (c : Conn) :
    Evolves assigned s (s.hashDelFound p c) := by
  obtain ⟨hconns, hnext⟩ := hashDelFound_frame s p c
  exact .of_conns hnext hconns

theorem evolves_remove (s : Node) (p : Nat) (c : Conn) :
    Evolves assigned s (serverRemoveClient s p c) := by
  have hdel : Evolves assigned s (if c.casefoldNick ≠ [] then s.hashDelFound p c else s) := by
    split
    · exact evolves_hashDelFound s p c
    · exact .refl s
  refine hdel.trans ⟨le_rfl, fun q d hd => Or.inl ⟨d, ?_, Conn.Grows.refl d⟩⟩
  change Function.update (if c.casefoldNick ≠ [] then s.hashDelFound p c else s).conns p none q =
    some d at hd
  by_cases hq : q = p
  · rw [hq, Function.update_self] at hd
    exact absurd hd (by simp)
  · rwa [Function.update_of_ne hq] at hd

/-! ## 2. The operations -/

theorem conns_of_find {s : Node} {nick : Text} {p : Nat} {c : Conn}
    (h : s.serverFindUser nick = some (p, c)) : s.conns p = some c := by
  obtain ⟨q, -, hat⟩ := Option.bind_eq_some_iff.mp h
  exact of_at? hat

/-- One who has registered takes another nick. -/
theorem Conn.grows_called {c : Conn} (hreg : c.Known assigned → c.registered = true) (nick : Text)
    (now : Int) : c.Grows assigned ((c.called nick).dated now) :=
  ⟨id, rfl, fun h => ⟨h.named, h.foreign, fun hno => absurd ((hreg h).symm.trans hno) (by decide)⟩⟩

theorem evolves_loseNick {s : Node} {p : Nat} {c : Conn} (hc : s.conns p = some c) :
    Evolves assigned s (loseNick s p c) := by
  unfold loseNick
  split
  · exact evolves_remove s p c
  · have hdel : Evolves assigned s (s.hashDelFound p c) := evolves_hashDelFound s p c
    have hc' : (s.hashDelFound p c).conns p = some c := (hashDelFound_frame s p c).1 ▸ hc
    exact hdel.trans (evolves_write hc' ⟨id, rfl, fun h => ⟨h.named, h.foreign, h.undated⟩⟩)

theorem evolves_resolveCollision (s : Node) (nick : Text) (ts : Int) :
    Evolves assigned s (resolveCollision s nick ts).1 := by
  unfold resolveCollision
  split
  next => exact .refl s
  next p old hfind =>
    have hl : Evolves assigned s (loseNick s p old) := evolves_loseNick (conns_of_find hfind)
    split
    · exact hl
    · split
      · exact hl
      · exact .refl s

theorem evolves_forceNickChange {s : Node} {p : Nat} {c : Conn} (hc : s.conns p = some c)
    (hreg : c.registered = true) (newnick : Text) (now : Int) :
    Evolves assigned s (forceNickChange s p c newnick now) := by
  unfold forceNickChange
  split
  · have hdel : Evolves assigned s (s.hashDel p) := .of_conns rfl rfl
    exact hdel.trans (evolves_enter hc (Conn.grows_called (fun _ => hreg) newnick now))
  · exact .refl s

theorem evolves_cmdNick {s : Node} {p : Nat} {c : Conn} (hc : s.conns p = some c) (newnick : Text)
    (barred : Bool) (now : Int) : Evolves assigned s (cmdNick s p c newnick barred now) := by
  unfold cmdNick
  split
  · exact .refl s
  split
  · exact .refl s
  split
  · exact .refl s
  split
  next =>
    have hout : Evolves assigned s (if c.gotNick then s.hashDelFound p c else s) ∧
        (if c.gotNick then s.hashDelFound p c else s).conns p = some c := by
      split
      · exact ⟨evolves_hashDelFound s p c, (hashDelFound_frame s p c).1 ▸ hc⟩
      · exact ⟨.refl s, hc⟩
    exact hout.1.trans (evolves_enter hout.2 ⟨id, rfl, fun h => ⟨h.named, h.foreign, h.undated⟩⟩)
  next hreg =>
    rw [Bool.not_eq_false] at hreg
    split
    · exact .refl s
    split
    · refine evolves_write hc ⟨id, rfl, fun h => ⟨h.named, h.foreign, fun hno => ?_⟩⟩
      exact absurd (hreg.symm.trans hno) (by decide)
    · have hdel : Evolves assigned s (s.hashDel p) := .of_conns rfl rfl
      exact hdel.trans (evolves_enter hc (Conn.grows_called (fun _ => hreg) newnick now))

theorem evolves_ready {s : Node} {p : Nat} {c : Conn} (hc : s.conns p = some c) {uid : Text}
    (huid : assigned → uid ≠ []) (klined : Bool) (now : Int) :
    Evolves assigned s (cmdSendWelcomeIfReady s p c uid klined now) := by
  unfold cmdSendWelcomeIfReady
  split
  · exact .refl s
  split
  · exact evolves_write hc ⟨id, rfl, fun h => ⟨h.named, h.foreign, h.undated⟩⟩
  · have hw : Evolves assigned s (s.write p { c with
        registered := true, uid := if c.uid = [] then uid else c.uid
        nickTs := if c.nickTs = 0 then now else c.nickTs }) := by
      refine evolves_write hc ⟨fun _ => rfl, rfl, fun h => ⟨fun ha _ => ?_, fun _ => rfl, fun hno => ?_⟩⟩
      · change (if c.uid = [] then uid else c.uid) ≠ []
        split
        next => exact huid ha
        next hne => exact hne
      · exact absurd hno (by simp)
    exact hw.trans (.of_conns rfl rfl)

theorem evolves_handleUid (s : Node) (nick uid : Text) (ts : Int) (svc : Bool) :
    Evolves assigned s (s.handleUid nick uid ts svc) := by
  unfold Node.handleUid
  split
  next => exact .refl s
  next hvalid =>
    rw [not_or, not_or, not_not] at hvalid
    have hr : Evolves assigned s (resolveCollision s nick ts).1 := evolves_resolveCollision s nick ts
    simp only
    split
    · have hknown : (Conn.remoteUser nick uid ts svc).Known assigned := by
        refine ⟨fun _ _ => ?_, fun _ => rfl, fun hno => absurd hno (by simp [Conn.remoteUser, Conn.called])⟩
        have hlen := hvalid.2.1
        change clip 10 uid ≠ []
        rw [clip_of_fits (by rw [hlen]; decide)]
        exact List.ne_nil_of_length_pos (by rw [hlen]; decide)
      exact (hr.trans (evolves_new hknown)).trans (.of_conns rfl rfl)
    · exact hr

theorem evolves_handleNick {s : Node} {p : Nat} {u : Conn} (hu : s.conns p = some u)
    (hremote : u.remote = true) (newnick : Text) (ts : Int) : Evolves assigned s (handleNick s p u newnick ts) := by
  have hrename : ∀ t : Node, t.conns p = some u →
      Evolves assigned t ((t.hashDelFound p u).enter p ((u.called newnick).dated ts)) := by
    intro t ht
    have ht' : (t.hashDelFound p u).conns p = some u := (hashDelFound_frame t p u).1 ▸ ht
    exact (evolves_hashDelFound t p u).trans (evolves_enter ht' (Conn.grows_called (fun hk => hk.foreign (Or.inl hremote)) newnick ts))
  unfold handleNick
  split
  · exact .refl s
  · simp only
    split
    next q clash hclash =>
      obtain ⟨hfind, hqp⟩ := Option.filter_eq_some_iff.mp hclash
      split
      next =>
        have hpq : p ≠ q := fun e => by simp [e] at hqp
        refine (evolves_loseNick (conns_of_find hfind)).trans (hrename _ ?_)
        rw [loseNick_others s clash hpq, hu]
      next => exact evolves_remove s p u
    next => exact hrename s hu

/-- **What an event does to the clients.** -/
theorem evolves_nodeStep (s : Node) (e : NodeEvent) (he : assigned → e.Assigns) : Evolves assigned s (nodeStep s e) := by
  cases e with
  | connect => exact evolves_new ⟨by simp, by simp, by simp⟩
  | nick p newnick barred now =>
    simp only [nodeStep, Node.dispatch]
    split
    next c hc =>
      split
      · exact .refl s
      · exact evolves_cmdNick hc newnick barred now
    next => exact .refl s
  | user p =>
    simp only [nodeStep, Node.dispatch]
    split
    next c hc =>
      split
      · exact .refl s
      split
      · exact .refl s
      · exact evolves_write hc ⟨id, rfl, fun h => ⟨h.named, h.foreign, h.undated⟩⟩
    next => exact .refl s
  | ready p uid klined now =>
    simp only [nodeStep]
    split
    next c hc => exact evolves_ready hc he klined now
    next => exact .refl s
  | sanick nick newnick now =>
    simp only [nodeStep]
    split
    next p c hfind =>
      split
      next => exact .refl s
      next hgo =>
        simp only [Bool.or_eq_true, not_or, decide_eq_true_eq, Bool.not_eq_false] at hgo
        exact evolves_forceNickChange (conns_of_find hfind) hgo.1.1 newnick now
    next => exact .refl s
  | svsnick id newnick now =>
    simp only [nodeStep]
    split
    next p c hid =>
      split
      next hreg =>
        refine evolves_forceNickChange ?_ hreg newnick now
        have hfind := (Option.filter_eq_some_iff.mp hid).1
        cases id with
        | inl q => exact of_at? hfind
        | inr name =>
          rcases Option.or_eq_some_iff.mp hfind with hfind | ⟨-, hfind⟩
          · split at hfind
            · exact of_netsyncFindUid hfind
            · exact absurd hfind (by simp)
          · exact conns_of_find hfind
      next => exact .refl s
    next => exact .refl s
  | uid nick uid ts svc => exact evolves_handleUid s nick uid ts svc
  | remoteNick uid newnick ts =>
    simp only [nodeStep]
    split
    next p u hfind =>
      obtain ⟨hu, hremote⟩ := Option.filter_eq_some_iff.mp hfind
      exact evolves_handleNick (of_netsyncFindUid hu) hremote newnick ts
    next => exact .refl s
  | service nick uid now =>
    simp only [nodeStep]
    unfold svcNick
    split
    · exact .refl s
    · have hknown : (Conn.called ⟨[], [], uid, now, true, true, true, false, true, false⟩ nick).Known
          assigned := ⟨fun ha _ => he ha, fun _ => rfl, fun hno => absurd hno (by simp [Conn.called])⟩
      exact (evolves_new hknown).trans (.of_conns rfl rfl)
  | markQuit p =>
    simp only [nodeStep]
    split
    next c hc => exact evolves_write hc ⟨id, rfl, fun h => ⟨h.named, h.foreign, h.undated⟩⟩
    next => exact .refl s
  | remove p =>
    simp only [nodeStep]
    split
    next c hc => exact evolves_remove s p c
    next => exact .refl s
  | linkUp =>
    simp only [nodeStep]
    have hall : ∀ (xs : List (Nat × Conn)) (t : Node),
        Evolves assigned t (xs.foldl (fun s x => if x.2.uid ≠ [] then s.sendUidLine x.1 x.2 else s) t) := by
      intro xs
      induction xs with
      | nil => exact fun t => .refl t
      | cons x xs ih =>
        intro t
        have hx : Evolves assigned t (if x.2.uid ≠ [] then t.sendUidLine x.1 x.2 else t) := by
          split
          · exact .of_conns rfl rfl
          · exact .refl t
        exact hx.trans (ih _)
    exact hall _ s

end SekurIRCd
