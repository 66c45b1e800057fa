/-
# Users were checked under the names they have

K-lines are matched against an address, a user name and a host, and while a connection waits for
its lookups all three can still change: an ident answer replaces the user name, reverse DNS the
host, a gateway the address.  A late answer must not.

`registered_checked`: in every run, whoever is a user has given a nick and a user name, waits for
no lookup, and has passed the K-lines of the moment they were let in under the very address, name
and host that they have now.

The welcome itself asks about reverse DNS and ident only.  A connection that a blocklist is still
asked about is not read from, so that it has no nick to be welcomed under (`Listened`); that is the
one fact about a connection that has to be carried along for it.
-/
import SekurIRCd.Accept.Privilege

namespace SekurIRCd

open CLib

/-! ## 1. One connection

`Joins` is what every change of a connection keeps: a user stays one under the same names, and
whoever becomes one has settled and matches no line of the moment.  Changes compose.
-/

namespace LoginConn

/-- What the welcome waits for is there: a nick, a user name, and an end of every lookup, of the
host name, of the ident and of the blocklists. -/
structure Settled (cl : LoginConn) : Prop where
  gotNick : cl.gotNick = true
  gotUser : cl.gotUser = true
  rdns : cl.rdnsPending = false
  ident : cl.identPending = false
  dnsbl : cl.dnsblPending = false

/-- A connection that was read from waits for no blocklist. -/
def Listened (cl : LoginConn) : Prop := cl.gotNick = true → cl.dnsblPending = false

/-- All of a connection that this module looks at. -/
def entry (cl : LoginConn) : Bool × LineSubject × Bool × Bool × Bool × Bool × Bool :=
  (cl.registered, cl.subject, cl.gotNick, cl.gotUser, cl.rdnsPending, cl.identPending,
    cl.dnsblPending)

/-- A change after which a user was one before, under the same names, or was let in by it. It is
reflexive and transitive, so the functions can be taken one after the other. -/
structure Joins (inet : IpText) (lines : List KLine) (cl cl' : LoginConn) : Prop where
  stays : cl.registered = true →
    cl'.registered = true ∧ cl'.subject = cl.subject ∧ (cl.Settled → cl'.Settled)
  enters : cl.Listened → cl.registered = false → cl'.registered = true →
    cl'.Settled ∧ serverKlineMatch inet lines cl'.subject = none
  listened : cl.Listened → cl'.Listened

variable {inet : IpText} {lines : List KLine} {srv : LoginServer}

/-- The fields that matter here are untouched. -/
theorem joins_same {cl cl' : LoginConn} (h : cl'.entry = cl.entry) : Joins inet lines cl cl' := by
  simp only [entry, Prod.mk.injEq] at h
  obtain ⟨hreg, hsubject, hnick, huser, hrdns, hident, hdnsbl⟩ := h
  refine ⟨fun hr => ⟨hreg.trans hr, hsubject, fun hs => ?_⟩, fun _ hr hr' => ?_, fun hl hn => ?_⟩
  · exact ⟨hnick.trans hs.gotNick, huser.trans hs.gotUser, hrdns.trans hs.rdns,
      hident.trans hs.ident, hdnsbl.trans hs.dnsbl⟩
  · rw [hreg, hr] at hr'
    cases hr'
  · exact hdnsbl.trans (hl (hnick.symm.trans hn))

theorem joins_refl (cl : LoginConn) : Joins inet lines cl cl := joins_same rfl

/-- Lookups that a connection waited for are over. -/
theorem Joins.of_over {cl cl' : LoginConn} (h1 : cl'.registered = cl.registered)
    (h2 : cl'.subject = cl.subject) (h3 : cl.Settled → cl'.Settled)
    (h4 : cl'.dnsblPending = false) : Joins inet lines cl cl' := by
  refine ⟨fun h => ⟨h1.trans h, h2, h3⟩, fun _ h h' => ?_, fun _ _ => h4⟩
  rw [h1, h] at h'
  cases h'

/-- A connection that is no user yet stays none. -/
theorem Joins.of_not {cl cl' : LoginConn} (h : cl.registered = false)
    (h' : cl'.registered = false) (h4 : cl.Listened → cl'.Listened) :
    Joins inet lines cl cl' := by
  refine ⟨fun hreg => ?_, fun _ _ hreg => ?_, h4⟩
  · rw [h] at hreg
    cases hreg
  · rw [h'] at hreg
    cases hreg

theorem Joins.trans {a b c : LoginConn} (h : Joins inet lines a b) (h' : Joins inet lines b c) :
    Joins inet lines a c := by
  refine ⟨fun ha => ?_, fun hl ha hc => ?_, fun hl => h'.listened (h.listened hl)⟩
  · obtain ⟨hb, hsub, hset⟩ := h.stays ha
    obtain ⟨hc, hsub', hset'⟩ := h'.stays hb
    exact ⟨hc, by rw [hsub', hsub], fun hs => hset' (hset hs)⟩
  · cases hb : b.registered with
    | false => exact h'.enters (h.listened hl) hb hc
    | true =>
      obtain ⟨hset, hmatch⟩ := h.enters hl ha hb
      obtain ⟨-, hsub, hset'⟩ := h'.stays hb
      exact ⟨hset' hset, by rw [hsub, hmatch]⟩

theorem joins_reply (cl : LoginConn) (numeric text : Text) :
    Joins inet lines cl (cl.reply numeric text) := joins_same rfl

theorem joins_quit (cl : LoginConn) (reason : Text) : Joins inet lines cl (cl.quit reason) :=
  joins_same rfl

theorem joins_capHold (cl : LoginConn) (req : Bool) : Joins inet lines cl (cl.capHold req) := by
  rw [capHold]
  split
  · exact joins_refl cl
  · exact joins_same rfl

theorem joins_pass (cl : LoginConn) (param : Text) : Joins inet lines cl (cl.cmdPass param) := by
  rw [cmdPass]
  split
  · exact joins_refl cl
  · exact joins_same rfl

theorem passLogin_entry (srv : LoginServer) (cl : LoginConn) :
    (cmdPassLogin srv cl).1.entry = cl.entry := by
  rw [cmdPassLogin]
  split
  · rfl
  · dsimp only
    split
    · rfl
    · split
      · rfl
      · split <;> rfl

/-- **The welcome** lets in who has settled, if no line matches. -/
theorem joins_welcome (cl : LoginConn) :
    Joins inet srv.lines cl (cmdSendWelcomeIfReady inet srv cl) := by
  rw [cmdSendWelcomeIfReady]
  split
  · exact joins_refl cl
  · next hready =>
    split
    · exact joins_refl cl
    · next hfree =>
      simp only [not_or, Bool.not_eq_true, Bool.not_eq_false] at hready hfree
      obtain ⟨hreg, hnick, huser, -⟩ := hready
      have hpass : Joins inet srv.lines cl (cmdPassLogin srv cl).1 :=
        joins_same (passLogin_entry srv cl)
      have hsettled : cl.Listened → cl.Settled := fun hl =>
        ⟨hnick, huser, hfree.1, hfree.2.1, hl hnick⟩
      have hentry := passLogin_entry srv cl
      simp only [entry, Prod.mk.injEq] at hentry
      obtain ⟨hreg', hsubject, hnick', huser', hrdns, hident, hdnsbl⟩ := hentry
      dsimp only
      split
      · exact hpass
      · split
        · exact hpass.trans (joins_quit _ _)
        · next hmatch =>
          refine ⟨fun h => ?_, fun hl _ _ => ⟨?_, hmatch⟩, hpass.listened⟩
          · rw [hreg] at h
            cases h
          · have hs := hsettled hl
            exact ⟨hnick'.trans hs.gotNick, huser'.trans hs.gotUser, hrdns.trans hs.rdns,
              hident.trans hs.ident, hdnsbl.trans hs.dnsbl⟩

theorem Joins.before_welcome {cl cl' : LoginConn} (h : Joins inet srv.lines cl cl') :
    Joins inet srv.lines cl (cmdSendWelcomeIfReady inet srv cl') :=
  h.trans (joins_welcome cl')

/-- A change of a connection that is no user yet, and then the welcome. -/
theorem Joins.welcome {cl cl' : LoginConn} (h : cl.registered = false)
    (h' : cl'.registered = false) (hl : cl.Listened → cl'.Listened) :
    Joins inet srv.lines cl (cmdSendWelcomeIfReady inet srv cl') :=
  (Joins.of_not h h' hl).before_welcome

/-- A connection that is read from takes a nick. -/
theorem joins_nick (nick : Text) {cl : LoginConn} (hread : cl.dnsblPending = false) :
    Joins inet srv.lines cl (connNick inet srv nick cl) := by
  rw [connNick]
  split
  · exact joins_refl cl
  · next h =>
    rw [Bool.not_eq_true] at h
    exact Joins.welcome h h fun _ _ => hread

theorem joins_user (param : Text) (cl : LoginConn) :
    Joins inet srv.lines cl (cmdUser inet srv param cl) := by
  rw [cmdUser]
  split
  · exact joins_reply cl _ _
  · next h =>
    rw [Bool.not_eq_true] at h
    exact Joins.welcome h h id

theorem joins_capEnd (cl : LoginConn) : Joins inet srv.lines cl (capEnd inet srv cl) :=
  Joins.before_welcome (joins_same rfl)

theorem joins_address (given : Text) (hostname : Option Text) (classFull : Bool) {cl : LoginConn}
    (h : cl.registered = false) :
    Joins inet lines cl (clientApplyRealAddress inet srv given hostname classFull cl) := by
  rw [clientApplyRealAddress]
  split
  · exact joins_quit cl _
  · dsimp only
    split
    · exact .of_not h h id
    · split
      · exact .of_not h h fun _ _ => rfl
      · exact .of_not h h fun _ _ => rfl

theorem joins_tick (now : Nat) (cl : LoginConn) :
    Joins inet srv.lines cl (srv.tickConn inet now cl) := by
  rw [LoginServer.tickConn]
  split
  · exact joins_refl cl
  · have hlookups : Joins inet srv.lines cl (srv.rescueLookups inet now cl) := by
      rw [LoginServer.rescueLookups]
      split
      · exact Joins.before_welcome
          (.of_over rfl rfl (fun hs => ⟨hs.gotNick, hs.gotUser, rfl, rfl, rfl⟩) rfl)
      · exact joins_refl cl
    have hauth : ∀ cl : LoginConn, Joins inet srv.lines cl (LoginServer.rescueAuth now cl) := by
      intro cl
      rw [LoginServer.rescueAuth]
      split
      · exact joins_same rfl
      · exact joins_refl cl
    have hrescued := hlookups.trans (hauth _)
    dsimp only
    split
    · exact hrescued.trans (joins_quit _ _)
    · exact hrescued

theorem joins_finishOper (cfg : LoginConfig) (opName : Text) (pwOk : Bool) (cl : LoginConn) :
    Joins inet lines cl (finishOper cfg opName pwOk cl) := by
  rw [finishOper]
  split
  · dsimp only
    split
    · exact joins_same rfl
    · exact joins_same rfl
  · exact joins_same rfl

end LoginConn

/-! ## 2. The server

A step changes many connections, and each of them as `Joins` says.  `LetIn` is the moment that the
theorem is about.
-/

namespace LoginServer

open LoginConn

/-- Connections stand under their numbers. -/
def Numbered (srv : LoginServer) : Prop := ∀ c cl, srv.clients c = some cl → cl.connId = c

/-- Every connection has changed so. -/
structure JoinsAll (inet : IpText) (lines : List KLine) (srv srv' : LoginServer) : Prop where
  ids : Numbered srv → Numbered srv'
  conn : ∀ c cl', srv'.clients c = some cl' →
    ∃ cl, srv.clients c = some cl ∧ Joins inet lines cl cl'

/-- **The connection `c` is let in**: it was no user, it is one now, under the names `s`, it has
settled, and no line matches it. -/
def LetIn (inet : IpText) (c : Nat) (s : LineSubject) (srv srv' : LoginServer) : Prop :=
  ∃ cl cl', srv.clients c = some cl ∧ cl.registered = false ∧ srv'.clients c = some cl' ∧
    cl'.registered = true ∧ cl'.Settled ∧ cl'.subject = s ∧ serverKlineMatch inet srv.lines s = none

/-- Every user has settled and is as `P` says, and whoever was read from waits for no
blocklist. -/
def Users (P : Nat → LineSubject → Prop) (srv : LoginServer) : Prop :=
  ∀ c cl, srv.clients c = some cl →
    cl.Listened ∧ (cl.registered = true → cl.Settled ∧ P c cl.subject)

variable {inet : IpText} {verify : Text → Text → Bool} {lines : List KLine}
  {srv srv' : LoginServer} {c : Nat} {cl cl' : LoginConn}

theorem Users.joins {P : Nat → LineSubject → Prop} (h : Users P srv)
    (hj : JoinsAll inet srv.lines srv srv') (hP : ∀ c s, LetIn inet c s srv srv' → P c s) :
    Users P srv' := by
  intro c cl' hcl'
  obtain ⟨cl, hcl, hjoins⟩ := hj.conn c cl' hcl'
  obtain ⟨hlistened, huser⟩ := h c cl hcl
  refine ⟨hjoins.listened hlistened, fun hreg' => ?_⟩
  cases hreg : cl.registered with
  | true =>
    obtain ⟨-, hsub, hset⟩ := hjoins.stays hreg
    obtain ⟨hsettled, hp⟩ := huser hreg
    exact ⟨hset hsettled, by rw [hsub]; exact hp⟩
  | false =>
    obtain ⟨hsettled, hmatch⟩ := hjoins.enters hlistened hreg hreg'
    exact ⟨hsettled, hP c _ ⟨cl, cl', hcl, hreg, hcl', hreg', hsettled, rfl, hmatch⟩⟩

theorem joinsAll_of_eq (h : srv'.clients = srv.clients) : JoinsAll inet lines srv srv' := by
  refine ⟨fun hids c cl hcl => ?_, fun c cl hcl => ?_⟩
  · rw [h] at hcl
    exact hids c cl hcl
  · rw [h] at hcl
    exact ⟨cl, hcl, joins_refl cl⟩

theorem JoinsAll.trans {a b d : LoginServer} (h : JoinsAll inet lines a b)
    (h' : JoinsAll inet lines b d) : JoinsAll inet lines a d := by
  refine ⟨fun hids => h'.ids (h.ids hids), fun c cl hcl => ?_⟩
  obtain ⟨cl₁, hcl₁, hj⟩ := h'.conn c cl hcl
  obtain ⟨cl₀, hcl₀, hj₀⟩ := h.conn c cl₁ hcl₁
  exact ⟨cl₀, hcl₀, hj₀.trans hj⟩

theorem Numbered.setConn (h : Numbered srv) (cl : LoginConn) : Numbered (srv.setConn cl) := by
  intro k clk hk
  rw [setConn_clients] at hk
  by_cases hkc : k = cl.connId
  · rw [if_pos hkc] at hk
    rw [← Option.some.inj hk, hkc]
  · rw [if_neg hkc] at hk
    exact h k clk hk

theorem joinsAll_setConn (hcl : srv.clients c = some cl) (hid : cl'.connId = c)
    (h : Joins inet lines cl cl') : JoinsAll inet lines srv (srv.setConn cl') := by
  refine ⟨fun hids => hids.setConn cl', fun k clk hk => ?_⟩
  rw [setConn_clients] at hk
  by_cases hkc : k = cl'.connId
  · rw [if_pos hkc] at hk
    rw [← Option.some.inj hk, hkc, hid]
    exact ⟨cl, hcl, h⟩
  · rw [if_neg hkc] at hk
    exact ⟨clk, hk, joins_refl clk⟩

theorem joinsAll_map {f : LoginConn → LoginConn}
    (h : ∀ cl, Joins inet lines cl (f cl) ∧ (f cl).connId = cl.connId)
    (hmap : ∀ c, srv'.clients c = (srv.clients c).map f) : JoinsAll inet lines srv srv' := by
  refine ⟨fun hids c cl' hcl' => ?_, fun c cl' hcl' => ?_⟩
  · rw [hmap] at hcl'
    obtain ⟨cl, hcl, rfl⟩ := Option.map_eq_some_iff.mp hcl'
    rw [(h cl).2]
    exact hids c cl hcl
  · rw [hmap] at hcl'
    obtain ⟨cl, hcl, rfl⟩ := Option.map_eq_some_iff.mp hcl'
    exact ⟨cl, hcl, (h cl).1⟩

theorem joinsAll_enforce (mask : Text) (t : LineType) (reason : Text) (except : Nat) :
    JoinsAll inet lines srv (srv.enforce inet mask t reason except) := by
  refine joinsAll_map (fun cl => ?_) fun c => rfl
  split
  · exact ⟨joins_quit cl reason, rfl⟩
  · exact ⟨joins_refl cl, rfl⟩

/-! ## 3. Answers

An answer finds its connection by number.  It renames nobody who is a user, since the answers of
reverse DNS and ident look at that first, and those of blocklists and password checks rename nobody.
-/

theorem joinsAll_dnsblHit (hcl : srv.clients c = some cl) (h : Joins inet lines cl cl')
    (hid : cl'.connId = c) (now : Nat) (z : Blacklist) (reply : Text) :
    JoinsAll inet lines srv (srv.dnsblHit inet now cl' z reply) := by
  have hhit : ∀ (srv' : LoginServer) (quit reason : Text), srv'.clients = srv.clients →
      JoinsAll inet lines srv ((srv'.enforce inet cl'.ip .Z quit cl'.connId).setConn
        (cl'.quit reason)) := by
    intro srv' quit reason hsame
    have hothers : JoinsAll inet lines srv (srv'.enforce inet cl'.ip .Z quit cl'.connId) :=
      (joinsAll_of_eq hsame).trans (joinsAll_enforce _ _ _ _)
    refine ⟨fun hids => (hothers.ids hids).setConn _, fun k clk hk => ?_⟩
    rw [setConn_clients] at hk
    by_cases hkc : k = (cl'.quit reason).connId
    · rw [if_pos hkc] at hk
      rw [← Option.some.inj hk]
      have hkc' : k = c := hkc.trans hid
      exact ⟨cl, by rw [hkc', hcl], h.trans (joins_quit cl' reason)⟩
    · rw [if_neg hkc] at hk
      exact hothers.conn k clk hk
  unfold dnsblHit
  dsimp only
  split
  · exact hhit _ _ _ rfl
  · exact hhit _ _ _ rfl

variable (inet lines) in
theorem joinsAll_finishDieOrRestart (hcl : srv.clients c = some cl) (hid : cl.connId = c)
    (isRestart pwOk : Bool) :
    JoinsAll inet lines srv (srv.finishDieOrRestart cl isRestart pwOk) ∧
      (srv.finishDieOrRestart cl isRestart pwOk).lines = srv.lines := by
  rw [finishDieOrRestart]
  split
  · exact ⟨joinsAll_setConn hcl hid (joins_reply cl _ _), rfl⟩
  · exact ⟨joinsAll_of_eq rfl, rfl⟩

theorem finishOper_connId (cfg : LoginConfig) (opName : Text) (pwOk : Bool) (cl : LoginConn) :
    (finishOper cfg opName pwOk cl).connId = cl.connId := by
  rw [finishOper]
  split
  · dsimp only
    split
    · rfl
    · rfl
  · rfl

variable (inet lines) in
theorem joinsAll_finishPrivilegedAuth (hcl : srv.clients c = some cl) (hid : cl.connId = c)
    (purpose : AuthPurpose) (success : Bool) :
    JoinsAll inet lines srv (srv.cmdFinishPrivilegedAuth cl purpose success) ∧
      (srv.cmdFinishPrivilegedAuth cl purpose success).lines = srv.lines := by
  have hset : JoinsAll inet lines srv (srv.setConn { cl with authPending := false }) :=
    joinsAll_setConn hcl hid (joins_same rfl)
  have hself : (srv.setConn { cl with authPending := false }).clients c = some _ := setConn_self hid
  unfold cmdFinishPrivilegedAuth
  cases purpose with
  | oper =>
    have hid' := (finishOper_connId srv.cfg cl.pendingAccount success
      { cl with authPending := false }).trans hid
    exact ⟨hset.trans (joinsAll_setConn hself hid' (joins_finishOper _ _ _ _)), rfl⟩
  | die =>
    obtain ⟨h1, h2⟩ := joinsAll_finishDieOrRestart inet lines hself hid false success
    exact ⟨hset.trans h1, h2⟩
  | restart =>
    obtain ⟨h1, h2⟩ := joinsAll_finishDieOrRestart inet lines hself hid true success
    exact ⟨hset.trans h1, h2⟩

/-- The answer to a password check lets no one in, but for the welcome that was held back. -/
theorem joinsAll_authResult (hids : Numbered srv) (hcl : srv.clients c = some cl) (r : JobResult) :
    JoinsAll inet srv.lines srv (srv.authResult inet cl r) := by
  have hid := hids c cl hcl
  obtain ⟨hfinish, hlines⟩ :=
    joinsAll_finishPrivilegedAuth inet srv.lines hcl hid r.purpose r.success
  rw [authResult]
  split
  · exact joinsAll_of_eq rfl
  · dsimp only
    split
    · next cl' hcl' =>
      have hkeeps := LoginConn.keeps_welcome inet
        (srv.cmdFinishPrivilegedAuth cl r.purpose r.success) cl'
      have hwelcome : Joins inet (srv.cmdFinishPrivilegedAuth cl r.purpose r.success).lines cl' _ :=
        joins_welcome cl'
      rw [hlines] at hwelcome
      exact hfinish.trans
        (joinsAll_setConn hcl' (hkeeps.connId.trans (hfinish.ids hids _ _ hcl')) hwelcome)
    · exact hfinish

/-- **One result** lets in only whom the lines of that moment pass. -/
theorem joinsAll_applyResult (hids : Numbered srv) (now : Nat) (r : JobResult) :
    JoinsAll inet srv.lines srv (srv.applyResult inet now r) := by
  rw [applyResult]
  split
  · exact joinsAll_of_eq rfl
  · next cl hcl =>
    have hid := hids _ cl hcl
    have hwelcome : ∀ cl' : LoginConn, cl'.connId = cl.connId →
        (LoginConn.cmdSendWelcomeIfReady inet srv cl').connId = r.connId := fun cl' h =>
      (LoginConn.keeps_welcome inet srv cl').connId.trans (h.trans hid)
    cases r.type with
    | rdns =>
      dsimp only
      split
      · exact joinsAll_of_eq rfl
      · next hreg =>
        rw [not_or, Bool.not_eq_true] at hreg
        exact joinsAll_setConn hcl (hwelcome _ rfl) (Joins.welcome hreg.1 hreg.1 id)
    | ident =>
      dsimp only
      split
      · exact joinsAll_of_eq rfl
      · next hreg =>
        rw [not_or, Bool.not_eq_true] at hreg
        exact joinsAll_setConn hcl (hwelcome _ rfl) (Joins.welcome hreg.1 hreg.1 id)
    | dnsbl =>
      dsimp only
      split
      · exact joinsAll_of_eq rfl
      · have hjoins : Joins inet srv.lines cl { cl with dnsblPending := false } :=
          .of_over rfl rfl (fun hs => ⟨hs.gotNick, hs.gotUser, hs.rdns, hs.ident, rfl⟩) rfl
        split
        · exact joinsAll_dnsblHit hcl hjoins hid now _ _
        · exact joinsAll_setConn hcl hid hjoins
    | sasl => exact joinsAll_authResult hids hcl r
    | hash => exact joinsAll_authResult hids hcl r

/-! ## 4. Every run

A batch of results is one step of the run, but the lines may change between two results of it (a
blocklist adds one), so that the moment somebody is let in is a moment within the batch.
-/

/-- The results of a batch, one by one. -/
def resultSteps (inet : IpText) (now : Nat) :
    LoginServer → List JobResult → List (LoginServer × LoginServer)
  | _, [] => []
  | srv, r :: rs =>
    (srv, srv.applyResult inet now r) :: resultSteps inet now (srv.applyResult inet now r) rs

variable (inet verify) in
/-- What a step consists of, for connections. -/
def moments (srv : LoginServer) : LoginStep → List (LoginServer × LoginServer)
  | .drain now =>
    let r := srv.pool.poll 32
    resultSteps inet now { srv with pool := r.2 } r.1
  | e => [(srv, srv.step inet verify e)]

variable (inet verify) in
/-- At some moment of the run the connection was let in, as this address, name and host, by lines
none of which matched. The moments of a step are those at which it asks about lines. -/
def Passed (cfg : LoginConfig) (es : List LoginStep) (c : Nat) (s : LineSubject) : Prop :=
  ∃ es₁ e es₂, es = es₁ ++ e :: es₂ ∧
    ∃ t ∈ moments inet verify (run inet verify cfg es₁) e, LetIn inet c s t.1 t.2

section Runs

variable {cfg : LoginConfig} {es : List LoginStep}

theorem Passed.snoc {s : LineSubject} (h : Passed inet verify cfg es c s) (e : LoginStep) :
    Passed inet verify cfg (es ++ [e]) c s := by
  obtain ⟨es₁, e', es₂, hes, hpassed⟩ := h
  exact ⟨es₁, e', es₂ ++ [e], split_snoc hes, hpassed⟩

theorem JoinsAll.onConn (f : LoginConn → LoginServer)
    (hf : ∀ cl, srv.clients c = some cl → cl.dnsblPending = false →
      JoinsAll inet lines srv (f cl)) :
    JoinsAll inet lines srv (srv.onConn c f) := by
  rw [LoginServer.onConn]
  split
  · next cl hcl =>
    split
    · exact joinsAll_of_eq rfl
    · next hreads =>
      rw [not_or, Bool.not_eq_true, Bool.not_eq_true] at hreads
      exact hf cl hcl hreads.2
  · exact joinsAll_of_eq rfl

theorem JoinsAll.onUser (hids : Numbered srv) (f : LoginConn → LoginServer)
    (hf : ∀ cl, srv.clients c = some cl → JoinsAll inet lines srv (f cl)) :
    JoinsAll inet lines srv (srv.onUser inet c f) := by
  refine JoinsAll.onConn _ fun cl hcl _ => ?_
  split
  · exact joinsAll_setConn hcl (hids c cl hcl) (joins_reply cl _ _)
  · split
    · exact joinsAll_of_eq rfl
    · exact hf cl hcl

theorem JoinsAll.onOper (hids : Numbered srv) (f : LoginConn → LoginServer)
    (hf : ∀ cl, srv.clients c = some cl → JoinsAll inet lines srv (f cl)) :
    JoinsAll inet lines srv (srv.onOper inet c f) := by
  refine JoinsAll.onUser hids _ fun cl hcl => ?_
  split
  · exact joinsAll_setConn hcl (hids c cl hcl) (joins_reply cl _ _)
  · exact hf cl hcl

theorem joinsAll_submitted (hids : Numbered srv) (hcl : srv.clients c = some cl) (account : Text)
    (now : Nat) (purpose : AuthPurpose) (given hash numeric : Text) :
    JoinsAll inet lines srv (srv.submitted
      (submitCheck now srv.pool { cl with pendingAccount := account } purpose given hash)
        numeric) := by
  have hid := hids c cl hcl
  rw [submitCheck]
  dsimp only
  split
  · rw [LoginServer.submitted]
    have hset : JoinsAll inet lines srv (srv.setConn { cl with
        pendingAccount := account, authPending := true, authStarted := now
        authGen := cl.authGen + 1 }) :=
      joinsAll_setConn hcl hid (joins_same rfl)
    exact hset.trans (joinsAll_of_eq rfl)
  · rw [LoginServer.submitted]
    exact joinsAll_setConn hcl hid (joins_same rfl)

theorem joinsAll_cmdOper (hids : Numbered srv) (hcl : srv.clients c = some cl) (now : Nat)
    (name password : Text) : JoinsAll inet lines srv (srv.cmdOper inet now cl name password) := by
  have hid := hids c cl hcl
  rw [LoginServer.cmdOper]
  split
  · exact joinsAll_setConn hcl hid (joins_reply cl _ _)
  · split
    · exact joinsAll_setConn hcl hid (joins_reply cl _ _)
    · split
      · exact joinsAll_setConn hcl hid (joins_reply cl _ _)
      · split
        · exact joinsAll_submitted hids hcl _ now _ _ _ _
        · exact joinsAll_setConn hcl ((finishOper_connId _ _ _ cl).trans hid)
            (joins_finishOper _ _ _ cl)

theorem joinsAll_cmdDieOrRestart (hids : Numbered srv) (hcl : srv.clients c = some cl) (now : Nat)
    (isRestart : Bool) (hash plain given : Text) :
    JoinsAll inet lines srv (srv.cmdDieOrRestart now cl isRestart hash plain given) := by
  have hid := hids c cl hcl
  rw [LoginServer.cmdDieOrRestart]
  split
  · split
    · exact joinsAll_setConn hcl hid (joins_reply cl _ _)
    · exact joinsAll_submitted hids hcl cl.pendingAccount now _ _ _ _
  · exact (joinsAll_finishDieOrRestart inet lines hcl hid _ _).1

/-- **The step lemma**, but for a batch of results and a new connection. -/
theorem joinsAll_step (hids : Numbered srv) (e : LoginStep) (he : ∀ now, e ≠ .drain now)
    (he' : ∀ now ip port localPort looked, e ≠ .accept now ip port localPort looked) :
    JoinsAll inet srv.lines srv (srv.step inet verify e) := by
  have hsame : ∀ {p : Pool}, JoinsAll inet srv.lines srv { srv with pool := p } :=
    joinsAll_of_eq rfl
  have hset : ∀ {c : Nat} {cl cl' : LoginConn}, srv.clients c = some cl → LoginConn.Keeps cl cl' →
      Joins inet srv.lines cl cl' → JoinsAll inet srv.lines srv (srv.setConn cl') :=
    fun hcl hk hj => joinsAll_setConn hcl (hk.connId.trans (hids _ _ hcl)) hj
  cases e with
  | accept now ip port localPort looked =>
    exact absurd rfl (he' now ip port localPort looked)
  | nick c nick =>
    exact .onConn _ fun cl hcl hread =>
      hset hcl (LoginConn.keeps_nick inet srv nick cl) (joins_nick nick hread)
  | user c param =>
    exact .onConn _ fun cl hcl _ =>
      hset hcl (LoginConn.keeps_user inet srv param cl) (joins_user param cl)
  | capHold c req =>
    exact .onConn _ fun cl hcl _ =>
      hset hcl (LoginConn.keeps_capHold cl req) (joins_capHold cl req)
  | capEnd c =>
    exact .onConn _ fun cl hcl _ => hset hcl (LoginConn.keeps_capEnd inet srv cl) (joins_capEnd cl)
  | pass c param =>
    exact .onConn _ fun cl hcl _ =>
      hset hcl (LoginConn.keeps_pass cl param) (joins_pass cl param)
  | address c given hostname classFull =>
    refine .onConn _ fun cl hcl _ => ?_
    split
    · exact joinsAll_of_eq rfl
    · next hreg =>
      rw [Bool.not_eq_true] at hreg
      exact hset hcl (LoginConn.keeps_address inet srv given hostname classFull cl)
        (joins_address given hostname classFull hreg)
  | oper c now name password => exact .onUser hids _ fun cl hcl => joinsAll_cmdOper hids hcl now _ _
  | die c now given =>
    exact .onOper hids _ fun cl hcl => joinsAll_cmdDieOrRestart hids hcl now _ _ _ _
  | restart c now given =>
    exact .onOper hids _ fun cl hcl => joinsAll_cmdDieOrRestart hids hcl now _ _ _ _
  | deop c =>
    refine .onUser hids _ fun cl hcl => ?_
    split
    · exact hset hcl ⟨rfl, .refl cl, fun ho => Bool.noConfusion ho⟩ (joins_same rfl)
    · exact hset hcl (.refl cl) (joins_refl cl)
  | sasl c on =>
    exact .onConn _ fun cl hcl _ => hset hcl (.of_eq rfl rfl rfl rfl rfl)
      (joins_same rfl)
  | passDone c success =>
    rw [LoginServer.step]
    split
    · next cl hcl =>
      exact hset hcl (LoginConn.Keeps.welcome inet srv (.of_eq rfl rfl rfl rfl rfl))
        (Joins.before_welcome (joins_same rfl))
    · exact joinsAll_of_eq rfl
  | quit c reason =>
    rw [LoginServer.step]
    split
    · next cl hcl => exact hset hcl (LoginConn.keeps_quit cl reason) (joins_quit cl reason)
    · exact joinsAll_of_eq rfl
  | remove c =>
    have hold : ∀ k clk, (srv.removeClient c).clients k = some clk → srv.clients k = some clk := by
      intro k clk hk
      simp only [removeClient] at hk
      split at hk
      · cases hk
      · exact hk
    exact ⟨fun hids k clk hk => hids k clk (hold k clk hk), fun k clk hk =>
      ⟨clk, hold k clk hk, joins_refl clk⟩⟩
  | take | begin | finish | push =>
    rw [LoginServer.step]
    split
    · exact hsame
    · exact hsame
  | drain now => exact absurd rfl (he now)
  | tick now =>
    exact joinsAll_map (fun cl =>
      ⟨joins_tick now cl, (LoginConn.keeps_tick inet srv now cl).connId⟩)
      fun c => rfl
  | config | lines | services => exact joinsAll_of_eq rfl

/-- **A batch of results**: each lets in only whom the lines of its moment pass. -/
theorem Users.applyResults {P : Nat → LineSubject → Prop} {rs : List JobResult} (now : Nat)
    (hids : Numbered srv) (h : Users P srv)
    (hP : ∀ t ∈ resultSteps inet now srv rs, ∀ c s, LetIn inet c s t.1 t.2 → P c s) :
    Users P (rs.foldl (fun srv r => srv.applyResult inet now r) srv) := by
  induction rs generalizing srv with
  | nil => exact h
  | cons r rs ih =>
    have hj : JoinsAll inet srv.lines srv (srv.applyResult inet now r) :=
      joinsAll_applyResult hids now r
    refine ih (hj.ids hids) (h.joins hj (hP _ List.mem_cons_self)) fun t ht => ?_
    exact hP t (List.mem_cons_of_mem _ ht)

/-- A new connection is no user, and has not been read from. -/
theorem Users.accept {P : Nat → LineSubject → Prop} (h : Users P srv) (now : Nat) (ip : Text)
    (port localPort : Nat) (looked : Bool) : Users P (srv.accept now ip port localPort looked) := by
  intro k clk hk
  rw [LoginServer.accept, setConn_clients] at hk
  by_cases hkc : k = srv.nextConnId + 1
  · rw [if_pos hkc] at hk
    rw [← Option.some.inj hk]
    refine ⟨fun hnick => ?_, fun hreg => ?_⟩
    · cases hnick
    · cases hreg
  · rw [if_neg hkc] at hk
    exact h k clk hk

theorem numbered_run (es : List LoginStep) : Numbered (run inet verify cfg es) :=
  fun c cl hcl => ((sound_run inet verify es).1.ids c cl hcl).1

/-- **The run lemma.** -/
theorem users_run (es : List LoginStep) :
    Users (Passed inet verify cfg es) (run inet verify cfg es) := by
  induction es using List.reverseRecOn with
  | nil =>
    intro c cl hcl
    cases hcl
  | append_singleton es e ih =>
    have hids : Numbered (run inet verify cfg es) := numbered_run es
    have hold : Users (Passed inet verify cfg (es ++ [e])) (run inet verify cfg es) := by
      intro c cl hcl
      obtain ⟨hlistened, huser⟩ := ih c cl hcl
      refine ⟨hlistened, fun hreg => ?_⟩
      obtain ⟨hset, hpassed⟩ := huser hreg
      exact ⟨hset, hpassed.snoc e⟩
    rw [run_concat]
    by_cases hdrain : ∃ now, e = .drain now
    · obtain ⟨now, rfl⟩ := hdrain
      exact Users.applyResults now hids hold fun t ht c s hs => ⟨es, .drain now, [], rfl, t, ht, hs⟩
    by_cases haccept : ∃ now ip port localPort looked, e = .accept now ip port localPort looked
    · obtain ⟨now, ip, port, localPort, looked, rfl⟩ := haccept
      exact hold.accept now ip port localPort looked
    have hstep : JoinsAll inet _ _ ((run inet verify cfg es).step inet verify e) :=
      joinsAll_step hids e (fun now h => hdrain ⟨now, h⟩) fun now ip port localPort looked h =>
        haccept ⟨now, ip, port, localPort, looked, h⟩
    refine hold.joins hstep fun c s hs => ⟨es, e, [], rfl, (_, _), ?_, hs⟩
    cases e with
    | drain now => exact absurd ⟨now, rfl⟩ hdrain
    | _ => exact List.mem_singleton_self _

end Runs

end LoginServer

end SekurIRCd
