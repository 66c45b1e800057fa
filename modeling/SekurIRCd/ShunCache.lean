/-
# The cached SHUN verdict

A client that an S-line hits keeps its connection, and most of its commands are dropped.  This is
asked for at every command, so `server_is_shunned` keeps its answer in the client, with the
generation of the lines it is for.  A change of the lines is a new generation.  What a line looks
at in a client only changes before it is registered, when it has not been asked for yet, or with
CHGIDENT, which forgets the answer; users of other servers change, but no command of theirs is
dispatched here.

So the answer is the one that the lines give now (`shun_current`), until the generation, a 32-bit
number, has gone all the way round.  A stamp of 0, which says that there is no answer, is the
stamp for one generation in `2^32` (`shun_round`).

The generations are counted without end here, and compared modulo `2^32` as the code does.
-/
import SekurIRCd.Enforce
import SekurIRCd.Lib.Generation

namespace SekurIRCd

open CLib Generation

/-! ## 1. Clients and lines

Everything that a line looks at in a client is a field here, and every function that writes one of
them is a step. -/

/-- Where a user is: on a connection of this server, a service that a link has introduced, or on
another server. -/
inductive UserOrigin
  | socket
  | service
  | remote
deriving DecidableEq, Repr

/-- A client, as far as lines look at it, with the answer that it keeps. -/
structure ShunClient where
  origin : UserOrigin
  registered : Bool
  oper : Bool
  /-- `ip`, `user`, `realhost` and `ident_confirmed`. -/
  subject : LineSubject
  /-- `shun_gen` and `shunned`. -/
  kept : Kept Bool
deriving DecidableEq

/-- The lines, and the clients by their place in memory. -/
structure ShunWorld where
  klines : List KLine
  klineGen : Nat
  clients : Nat → Option ShunClient

/-- Some SHUN in the list hits. -/
def shunnedBy (inet : IpText) (lines : List KLine) (s : LineSubject) : Bool :=
  lines.any fun k => decide (k.lineType = .S) && serverLineMaskHits inet k.mask .K s

namespace ShunClient

variable (c : ShunClient)

/-- A connection that was accepted, the address being its own name until it has another. -/
def ofSocket (ip : Text) : ShunClient :=
  ⟨.socket, false, false, ⟨clip 64 ip, [], clip 256 ip, false⟩, ⟨0, false⟩⟩

/-- What `cmd_user` makes of the name it is given. -/
def userName (maxNickLength : Nat) (param : Text) : Text :=
  let name := ((param.filter fun ch => isAlnum ch || ch == '_' || ch == '-').dropWhile
    (· = '-')).take (min 63 maxNickLength)
  if name = [] then "user".toList else name

/-- `cmd_user`. -/
def cmdUser (maxNickLength : Nat) (param : Text) : ShunClient :=
  if c.registered ∨ c.subject.identConfirmed then c
  else { c with subject := { c.subject with user := userName maxNickLength param } }

/-- `drain_worker_results`, for the answer of the identd. -/
def identResult (answer : Option Text) : ShunClient :=
  if c.registered then c
  else match answer with
    | none => c
    | some text =>
      { c with subject := { c.subject with user := clip 64 text, identConfirmed := true } }

/-- `drain_worker_results`, for the name of the host. -/
def rdnsResult (answer : Option Text) : ShunClient :=
  if c.registered then c
  else match answer with
    | none => c
    | some text => { c with subject := { c.subject with host := clip 256 text } }

/-- `client_apply_real_address`.  WEBIRC is refused to a registered client; a PROXY header is in
front of its first line, and a forwarded address in the handshake. -/
def applyRealAddress (inet : IpText) (given : Text) (hostname : Option Text) : ShunClient :=
  if c.registered then c
  else match ircIpNormalize inet given 64 with
    | none => c
    | some ip =>
      let host := (hostname.filter fun h => ircValidHost h && decide (h ≠ ip)).getD ip
      { c with subject := { c.subject with ip := ip, host := clip 256 host } }

/-- `cmd_chgident`, as far as the target is here. -/
def cmdChgident (ident : Text) : ShunClient :=
  if c.registered = false ∨ c.origin = .remote ∨ ircValidUser ident 63 = false then c
  else { c with
    subject := { c.subject with user := clip 64 ident, identConfirmed := true }
    kept := ⟨0, c.kept.value⟩ }

/-- `handle_chghost`, for a user of another server; older peers do not send the last parameter. -/
def handleChghost (user : Text) (identConfirmed : Option Bool) : ShunClient :=
  if c.origin ≠ .remote then c
  else { c with subject := { c.subject with
    user := clip 64 user
    identConfirmed := identConfirmed.getD c.subject.identConfirmed } }

end ShunClient

namespace ShunWorld

section Steps

variable (inet : IpText) (maxNickLength : Nat) (w : ShunWorld)

/-- The server has started, with the lines of its file. -/
def start (klines : List KLine) : ShunWorld := ⟨klines, 0, fun _ => none⟩

/-- `server_kline_add`; `alloc` says whether there is memory for a new line. -/
def klineAdd (a : LineAdd) (alloc : Bool) : ShunWorld :=
  if w.klines.any (isLine a.lineType a.mask) ∨ alloc then
    { w with
      klines := SekurIRCd.klineAdd a.now a.mask a.reason a.setBy a.lineType a.duration w.klines
      klineGen := w.klineGen + 1 }
  else w

/-- `server_kline_remove_typed`. -/
def klineRemove (mask : Text) (type : Option LineType) : ShunWorld :=
  let (found, klines) := klineRemoveTyped mask type w.klines
  if found then { w with klines := klines, klineGen := w.klineGen + 1 } else w

/-- `server_kline_prune_expired`. -/
def klinePrune (now : Nat) : ShunWorld :=
  let klines := klinePruneExpired now w.klines
  if klines.length < w.klines.length then
    { w with klines := klines, klineGen := w.klineGen + 1 }
  else w

def modify (u : Nat) (f : ShunClient → ShunClient) : ShunWorld :=
  { w with clients := Function.update w.clients u ((w.clients u).map f) }

/-- `server_is_shunned`. The answer is kept with the generation it is for; the stamp is one more
than the generation, so that 0 can stand for none. -/
def serverIsShunned (c : ShunClient) : Bool × ShunClient :=
  let (shunned, kept) := c.kept.ask (2 ^ 32) (w.klineGen + 1) (shunnedBy inet w.klines c.subject)
  (shunned, { c with kept := kept })

theorem fst_serverIsShunned (c : ShunClient) : (w.serverIsShunned inet c).1 =
    (c.kept.ask (2 ^ 32) (w.klineGen + 1) (shunnedBy inet w.klines c.subject)).1 := rfl

/-- `dispatch_inner`, as far as it asks: a command of a connection. -/
def dispatch (c : ShunClient) : ShunClient :=
  if c.origin = .socket ∧ c.registered ∧ c.oper = false then (w.serverIsShunned inet c).2 else c

/-- What happens to lines and to clients. Every writer of a field that a line looks at is one, and
so is a command, which is where the answer is asked for. -/
inductive Event
  | add (a : LineAdd) (alloc : Bool)
  | remove (mask : Text) (type : Option LineType)
  | prune (now : Nat)
  | accept (u : Nat) (ip : Text)
  | introduce (u : Nat) (origin : UserOrigin) (subject : LineSubject)
  | user (u : Nat) (param : Text)
  | ident (u : Nat) (answer : Option Text)
  | rdns (u : Nat) (answer : Option Text)
  | realAddress (u : Nat) (given : Text) (hostname : Option Text)
  | register (u : Nat)
  | oper (u : Nat) (on : Bool)
  | chgident (u : Nat) (ident : Text)
  | chghost (u : Nat) (user : Text) (identConfirmed : Option Bool)
  | command (u : Nat)
  | leave (u : Nat)

/-- One step.  A new client is where none is. -/
def step (w : ShunWorld) : Event → ShunWorld
  | .add a alloc => w.klineAdd a alloc
  | .remove mask type => w.klineRemove mask type
  | .prune now => w.klinePrune now
  | .accept u ip =>
    { w with clients := Function.update w.clients u ((w.clients u).or (some (.ofSocket ip))) }
  | .introduce u origin subject =>
    let c : ShunClient := ⟨origin, decide (origin ≠ .socket), false, subject, ⟨0, false⟩⟩
    { w with clients := Function.update w.clients u ((w.clients u).or (some c)) }
  | .user u param => w.modify u fun c => c.cmdUser maxNickLength param
  | .ident u answer => w.modify u fun c => c.identResult answer
  | .rdns u answer => w.modify u fun c => c.rdnsResult answer
  | .realAddress u given hostname => w.modify u fun c => c.applyRealAddress inet given hostname
  | .register u => w.modify u fun c => { c with registered := true }
  | .oper u on => w.modify u fun c => { c with oper := on }
  | .chgident u ident => w.modify u fun c => c.cmdChgident ident
  | .chghost u user identConfirmed => w.modify u fun c => c.handleChghost user identConfirmed
  | .command u => w.modify u (w.dispatch inet)
  | .leave u => { w with clients := Function.update w.clients u none }

def run (es : List Event) : ShunWorld := es.foldl (step inet maxNickLength) w

end Steps

/-! ## 2. What is kept

An answer counts while its stamp is the present generation. The cases of the invariant are the
three reasons why a kept answer cannot be wrong: it was computed for these lines, it is older, or
nobody asks. -/

/-- What is kept in a client is right for the lines, and nothing is kept in a client that is not
asked for. Generations are numbers here, so a stamp that is neither 0 nor the present one is an old
one. -/
structure Sound (inet : IpText) (lines : List KLine) (now : Nat) (c : ShunClient) : Prop where
  current : c.kept.Current now (shunnedBy inet lines c.subject)
  unasked : c.registered = false ∨ c.origin = .remote → c.kept.stamp = 0

/-- So it is in every client. -/
def Coherent (inet : IpText) (w : ShunWorld) : Prop :=
  ∀ u c, w.clients u = some c → Sound inet w.klines (w.klineGen + 1) c

section Sound

variable {inet : IpText} {lines lines' : List KLine} {now next : Nat} {c : ShunClient}

/-- Nothing is kept: whatever the client is, that is right. -/
theorem Sound.of_zero (hnow : 0 < now) (hk : c.kept.stamp = 0) : Sound inet lines now c :=
  ⟨.of_zero hnow hk, fun _ => hk⟩

theorem Sound.later (h : Sound inet lines now c) (hlt : now < next) : Sound inet lines' next c :=
  ⟨h.current.later hlt, h.unasked⟩

/-- Before a client is registered, and in a user of another server, anything may change. -/
theorem Sound.of_unasked (h : Sound inet lines now c) (hnow : 0 < now)
    (hun : c.registered = false ∨ c.origin = .remote) {c' : ShunClient} (hk : c'.kept = c.kept) :
    Sound inet lines now c' :=
  .of_zero hnow (hk ▸ h.unasked hun)

theorem Sound.cmdUser (h : Sound inet lines now c) (hnow : 0 < now) (maxNickLength : Nat)
    (param : Text) : Sound inet lines now (c.cmdUser maxNickLength param) := by
  rw [ShunClient.cmdUser]
  split
  · exact h
  · next hno =>
    exact h.of_unasked hnow (.inl (Bool.eq_false_iff.mpr fun hreg => hno (.inl hreg))) rfl

theorem Sound.identResult (h : Sound inet lines now c) (hnow : 0 < now) (answer : Option Text) :
    Sound inet lines now (c.identResult answer) := by
  rw [ShunClient.identResult.eq_def]
  split
  · exact h
  · next hno =>
    cases answer with
    | none => exact h
    | some text => exact h.of_unasked hnow (.inl (Bool.eq_false_iff.mpr hno)) rfl

theorem Sound.rdnsResult (h : Sound inet lines now c) (hnow : 0 < now) (answer : Option Text) :
    Sound inet lines now (c.rdnsResult answer) := by
  rw [ShunClient.rdnsResult.eq_def]
  split
  · exact h
  · next hno =>
    cases answer with
    | none => exact h
    | some text => exact h.of_unasked hnow (.inl (Bool.eq_false_iff.mpr hno)) rfl

theorem Sound.applyRealAddress (h : Sound inet lines now c) (hnow : 0 < now) (given : Text)
    (hostname : Option Text) : Sound inet lines now (c.applyRealAddress inet given hostname) := by
  rw [ShunClient.applyRealAddress]
  split
  · exact h
  · next hno =>
    cases ircIpNormalize inet given 64 with
    | none => exact h
    | some ip => exact h.of_unasked hnow (.inl (Bool.eq_false_iff.mpr hno)) rfl

theorem Sound.cmdChgident (h : Sound inet lines now c) (hnow : 0 < now) (ident : Text) :
    Sound inet lines now (c.cmdChgident ident) := by
  rw [ShunClient.cmdChgident]
  split
  · exact h
  · exact .of_zero hnow rfl

theorem Sound.handleChghost (h : Sound inet lines now c) (hnow : 0 < now) (user : Text)
    (identConfirmed : Option Bool) : Sound inet lines now (c.handleChghost user identConfirmed) := by
  rw [ShunClient.handleChghost]
  split
  · exact h
  · next hremote => exact h.of_unasked hnow (.inr (not_not.mp hremote)) rfl

theorem Sound.register (h : Sound inet lines now c) :
    Sound inet lines now { c with registered := true } := by
  refine ⟨h.current, fun hun => ?_⟩
  rcases hun with hreg | hremote
  · exact absurd hreg.symm Bool.false_ne_true
  · exact h.unasked (.inr hremote)

theorem Sound.dispatch {w : ShunWorld} (h : Sound inet w.klines (w.klineGen + 1) c) :
    Sound inet w.klines (w.klineGen + 1) (w.dispatch inet c) := by
  rw [ShunWorld.dispatch]
  split
  · next hasked =>
    refine ⟨h.current.ask, fun hun => ?_⟩
    rcases hun with hreg | hremote
    · exact absurd (hreg.symm.trans hasked.2.1) Bool.false_ne_true
    · exact absurd (hasked.1.symm.trans hremote) (by decide)
  · exact h

end Sound

/-! ## 3. A step, a run -/

section Run

variable {inet : IpText} {w : ShunWorld}

/-- A place in memory that holds something else. -/
theorem Coherent.place (h : w.Coherent inet) (u : Nat) {new : Option ShunClient}
    (hnew : ∀ c ∈ new, Sound inet w.klines (w.klineGen + 1) c) :
    ShunWorld.Coherent inet { w with clients := Function.update w.clients u new } := by
  intro v c hc
  change Function.update w.clients u new v = some c at hc
  by_cases hv : v = u
  · subst hv
    rw [Function.update_self] at hc
    exact hnew c hc
  · rw [Function.update_of_ne hv] at hc
    exact h v c hc

theorem Coherent.modify (h : w.Coherent inet) (u : Nat) {f : ShunClient → ShunClient}
    (hf : ∀ c, Sound inet w.klines (w.klineGen + 1) c → Sound inet w.klines (w.klineGen + 1) (f c)) :
    (w.modify u f).Coherent inet := by
  refine h.place u fun c hc => ?_
  obtain ⟨c₀, hc₀, rfl⟩ := Option.map_eq_some_iff.mp hc
  exact hf c₀ (h u c₀ hc₀)

/-- A new client is one in which nothing is kept. -/
theorem Coherent.arrive (h : w.Coherent inet) (u : Nat) {new : ShunClient}
    (hk : new.kept.stamp = 0) :
    ShunWorld.Coherent inet
      { w with clients := Function.update w.clients u ((w.clients u).or (some new)) } := by
  refine h.place u fun c hc => ?_
  cases hold : w.clients u with
  | none =>
    rw [hold] at hc
    obtain rfl : new = c := Option.some.inj hc
    exact .of_zero (Nat.succ_pos _) hk
  | some c' =>
    rw [hold] at hc
    exact h u c (hold.trans hc)

theorem Coherent.later (h : w.Coherent inet) (lines : List KLine) :
    ShunWorld.Coherent inet { w with klines := lines, klineGen := w.klineGen + 1 } :=
  fun u c hc => (h u c hc).later (Nat.lt_succ_self _)

/-- **One step.** -/
theorem Coherent.step (h : w.Coherent inet) (maxNickLength : Nat) (e : Event) :
    (w.step inet maxNickLength e).Coherent inet := by
  have hnow : 0 < w.klineGen + 1 := Nat.succ_pos _
  cases e with
  | add a alloc =>
    show (w.klineAdd a alloc).Coherent inet
    rw [ShunWorld.klineAdd]
    split
    · exact h.later _
    · exact h
  | remove mask type =>
    show (w.klineRemove mask type).Coherent inet
    simp only [ShunWorld.klineRemove]
    split
    · exact h.later _
    · exact h
  | prune now =>
    show (w.klinePrune now).Coherent inet
    rw [ShunWorld.klinePrune]
    split
    · exact h.later _
    · exact h
  | accept u ip => exact h.arrive u rfl
  | introduce u origin subject => exact h.arrive u rfl
  | user u param => exact h.modify u fun c hc => hc.cmdUser hnow maxNickLength param
  | ident u answer => exact h.modify u fun c hc => hc.identResult hnow answer
  | rdns u answer => exact h.modify u fun c hc => hc.rdnsResult hnow answer
  | realAddress u given hostname =>
    exact h.modify u fun c hc => hc.applyRealAddress hnow given hostname
  | register u => exact h.modify u fun c hc => hc.register
  | oper u on => exact h.modify u fun c hc => ⟨hc.current, hc.unasked⟩
  | chgident u ident => exact h.modify u fun c hc => hc.cmdChgident hnow ident
  | chghost u user identConfirmed =>
    exact h.modify u fun c hc => hc.handleChghost hnow user identConfirmed
  | command u => exact h.modify u fun c hc => hc.dispatch
  | leave u => exact h.place u fun c hc => absurd hc (Option.not_mem_none c)

theorem run_append (maxNickLength : Nat) (es es' : List Event) :
    w.run inet maxNickLength (es ++ es') =
      (w.run inet maxNickLength es).run inet maxNickLength es' := List.foldl_append

theorem Coherent.run (h : w.Coherent inet) (maxNickLength : Nat) (es : List Event) :
    (w.run inet maxNickLength es).Coherent inet := by
  induction es generalizing w with
  | nil => exact h
  | cons e es ih => exact ih (h.step maxNickLength e)

end Run

/-- **The cached verdict is the one of the moment**, for every client in every state that is
reached, unless `2^32` changes of the lines lie between. A change of the lines makes the stamp old,
CHGIDENT clears it, and the last condition keeps it from coming round. -/
theorem shun_current (inet : IpText) (maxNickLength : Nat) (lines : List KLine) (es : List Event)
    {u : Nat} {c : ShunClient}
    (hc : ((start lines).run inet maxNickLength es).clients u = some c)
    (hround : ((start lines).run inet maxNickLength es).klineGen + 1 < c.kept.stamp + 2 ^ 32) :
    (((start lines).run inet maxNickLength es).serverIsShunned inet c).1 =
      shunnedBy inet ((start lines).run inet maxNickLength es).klines c.subject := by
  have hstart : (start lines).Coherent inet := fun _ _ hc => absurd hc (Option.some_ne_none _).symm
  have hsound := hstart.run maxNickLength es u c hc
  rw [fst_serverIsShunned]
  exact Kept.ask_fst hsound.current hround

/-- A SHUN on one address. -/
def demoShun : LineAdd := ⟨0, "192.0.2.1".toList, "spam".toList, "oper".toList, .S, 0⟩

/-- A client of that address. -/
def demoClient (kept : Kept Bool) : ShunClient :=
  ⟨.socket, true, false, ⟨"192.0.2.1".toList, [], "192.0.2.1".toList, false⟩, kept⟩

/-- It is shunned, and stays so when asked again. -/
theorem shun_current_again :
    (((start []).run fullInet 30 [.accept 0 "192.0.2.1".toList, .register 0, .add demoShun true,
      .command 0]).serverIsShunned fullInet (demoClient ⟨2, true⟩)).1 = true :=
  (shun_current fullInet 30 []
    [.accept 0 "192.0.2.1".toList, .register 0, .add demoShun true, .command 0]
    (u := 0) (by decide +kernel) (by decide +kernel)).trans (by decide +kernel)

/-- A line that is there already is added again and again, and only the generation changes. -/
theorem run_replicate_add (inet : IpText) (maxNickLength : Nat) {a : LineAdd} {k : KLine}
    (hadd : SekurIRCd.klineAdd a.now a.mask a.reason a.setBy a.lineType a.duration [k] = [k])
    (n g : Nat) (clients : Nat → Option ShunClient) :
    ShunWorld.run inet maxNickLength ⟨[k], g, clients⟩ (List.replicate n (.add a true)) =
      ⟨[k], g + n, clients⟩ := by
  induction n generalizing g with
  | zero => rfl
  | succ n ih =>
    have hstep : ShunWorld.step inet maxNickLength ⟨[k], g, clients⟩ (.add a true) =
        ⟨[k], g + 1, clients⟩ := by
      show ShunWorld.klineAdd _ a true = _
      rw [ShunWorld.klineAdd, if_pos (.inr rfl), hadd]
    rw [List.replicate_succ, ShunWorld.run, List.foldl_cons, hstep, ← ShunWorld.run, ih]
    exact congrArg (ShunWorld.mk [k] · clients) (by omega)

/-- The lines have changed `2^32 - 1` times, and the first time a client is asked for, 0 is taken
for the stamp of an answer. -/
theorem shun_round :
    ¬ ∀ (inet : IpText) (maxNickLength : Nat) (lines : List KLine) (es : List Event) (u : Nat)
      (c : ShunClient), ((start lines).run inet maxNickLength es).clients u = some c →
      c.registered = true → (((start lines).run inet maxNickLength es).serverIsShunned inet c).1 =
        shunnedBy inet ((start lines).run inet maxNickLength es).klines c.subject := by
  intro h
  have hall := h fullInet 30 [] ([.accept 0 "192.0.2.1".toList, .register 0, .add demoShun true] ++
    List.replicate (2 ^ 32 - 2) (.add demoShun true)) 0 (demoClient ⟨0, false⟩)
  let k : KLine := ⟨"192.0.2.1".toList, "spam".toList, "oper".toList, .S, 0⟩
  obtain ⟨clients, hfirst, hclient⟩ : ∃ clients, (start []).run fullInet 30
      [.accept 0 "192.0.2.1".toList, .register 0, .add demoShun true] = ⟨[k], 1, clients⟩ ∧
      clients 0 = some (demoClient ⟨0, false⟩) := ⟨_, rfl, by decide +kernel⟩
  have hrun : (start []).run fullInet 30 ([.accept 0 "192.0.2.1".toList, .register 0,
      .add demoShun true] ++ List.replicate (2 ^ 32 - 2) (.add demoShun true)) =
      ⟨[k], 1 + (2 ^ 32 - 2), clients⟩ := by
    rw [run_append, hfirst]
    exact run_replicate_add fullInet 30 (by decide +kernel) _ _ _
  rw [hrun] at hall
  have hasked := hall hclient rfl
  rw [fst_serverIsShunned, Kept.ask, if_pos (by norm_num [demoClient])] at hasked
  have hnow : shunnedBy fullInet [k] (demoClient ⟨0, false⟩).subject = true := by decide +kernel
  exact Bool.false_ne_true (hasked.trans hnow)

end ShunWorld

end SekurIRCd
