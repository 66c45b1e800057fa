/-
# Operators have proved who they are

Between `OPER` and the answer of the worker that checks the password, a connection can start other
checks, be told that this one took too long, or go away, and its number is all that the answer has
to find it by.  What ties an answer to the question is the generation that each check starts
(`auth_gen`).

`opers_proved`: in every run, whoever is an operator became one at a step that had the right to it,
and has been one since.  That step is an `OPER` whose password was compared at once, or it polls the
result of the very job that an `OPER` of this connection sent to the workers: a worker has run that
job and found the password right, and from the `OPER` until then the connection was there and its
generation was the one of this check.  A result that comes late, that was superseded, or whose
connection has gone is none of these.  `stop_proved` says the same of DIE and RESTART.

A job on its way is followed by its generation.  `Vouched` says of a job that, as long as the
connection is in the job's generation, the job is what the connection asked for; `Sound` says it of
every job in the pool, and of every result that it was made by running such a job.  The same
invariant carries a predicate of what has been earned so far, so that the steps of one batch of
results are one induction.
-/
import SekurIRCd.Accept.Login

namespace SekurIRCd

open CLib

/-! ## 1. What a connection keeps

Nearly everything that happens to a connection makes no one an operator, and leaves the check that
is under way or starts a later one.
-/

namespace LoginConn

/-- The check that is under way is the same one, or a later one has begun. -/
def Onward (cl cl' : LoginConn) : Prop :=
  cl.authGen ≤ cl'.authGen ∧ (cl'.authGen = cl.authGen → cl'.pendingAccount = cl.pendingAccount)

/-- A change that makes no one an operator. -/
structure Keeps (cl cl' : LoginConn) : Prop where
  connId : cl'.connId = cl.connId
  onward : Onward cl cl'
  oper : cl'.oper = true → cl.oper = true ∧ cl'.operName = cl.operName

theorem Onward.refl (cl : LoginConn) : Onward cl cl := ⟨Nat.le_refl _, fun _ => rfl⟩

theorem Onward.trans {a b c : LoginConn} (h : Onward a b) (h' : Onward b c) : Onward a c := by
  obtain ⟨h1, h2⟩ := h
  obtain ⟨h3, h4⟩ := h'
  refine ⟨Nat.le_trans h1 h3, fun heq => ?_⟩
  rw [h4 (by omega), h2 (by omega)]

theorem Keeps.refl (cl : LoginConn) : Keeps cl cl := ⟨rfl, .refl cl, fun h => ⟨h, rfl⟩⟩

theorem Keeps.trans {a b c : LoginConn} (h : Keeps a b) (h' : Keeps b c) : Keeps a c where
  connId := by rw [h'.connId, h.connId]
  onward := h.onward.trans h'.onward
  oper hc := by
    obtain ⟨hb, hname⟩ := h'.oper hc
    obtain ⟨ha, hname'⟩ := h.oper hb
    exact ⟨ha, by rw [hname, hname']⟩

/-- The fields that matter here are untouched. -/
theorem Keeps.of_eq {cl cl' : LoginConn} (h1 : cl'.connId = cl.connId)
    (h2 : cl'.authGen = cl.authGen)
    (h3 : cl'.pendingAccount = cl.pendingAccount) (h4 : cl'.oper = cl.oper)
    (h5 : cl'.operName = cl.operName) : Keeps cl cl' :=
  ⟨h1, ⟨by rw [h2], fun _ => h3⟩, fun h => ⟨by rw [← h4, h], h5⟩⟩

theorem keeps_reply (cl : LoginConn) (numeric text : Text) : Keeps cl (cl.reply numeric text) :=
  .of_eq rfl rfl rfl rfl rfl

theorem keeps_quit (cl : LoginConn) (reason : Text) : Keeps cl (cl.quit reason) :=
  .of_eq rfl rfl rfl rfl rfl

theorem keeps_capHold (cl : LoginConn) (req : Bool) : Keeps cl (cl.capHold req) := by
  rw [capHold]
  split
  · exact .refl cl
  · exact .of_eq rfl rfl rfl rfl rfl

theorem keeps_pass (cl : LoginConn) (param : Text) : Keeps cl (cl.cmdPass param) := by
  rw [cmdPass]
  split
  · exact .refl cl
  · exact .of_eq rfl rfl rfl rfl rfl

section Welcome

variable (inet : IpText) (srv : LoginServer)

theorem keeps_passLogin (cl : LoginConn) : Keeps cl (cmdPassLogin srv cl).1 := by
  rw [cmdPassLogin]
  split
  · exact .refl cl
  · dsimp only
    split
    · exact .of_eq rfl rfl rfl rfl rfl
    · split
      · exact .of_eq rfl rfl rfl rfl rfl
      · split
        · exact .of_eq rfl rfl rfl rfl rfl
        · exact .of_eq rfl rfl rfl rfl rfl

theorem keeps_welcome (cl : LoginConn) : Keeps cl (cmdSendWelcomeIfReady inet srv cl) := by
  rw [cmdSendWelcomeIfReady]
  split
  · exact .refl cl
  · split
    · exact .refl cl
    · have hpass := keeps_passLogin srv cl
      dsimp only
      split
      · exact hpass
      · split
        · exact hpass.trans (keeps_quit _ _)
        · exact hpass.trans (.of_eq rfl rfl rfl rfl rfl)

/-- A change of other fields, and then the welcome. -/
theorem Keeps.welcome {cl cl' : LoginConn} (h : Keeps cl cl') :
    Keeps cl (cmdSendWelcomeIfReady inet srv cl') :=
  h.trans (keeps_welcome inet srv cl')

theorem keeps_nick (nick : Text) (cl : LoginConn) : Keeps cl (connNick inet srv nick cl) := by
  rw [connNick]
  split
  · exact .refl cl
  · exact Keeps.welcome inet srv (.of_eq rfl rfl rfl rfl rfl)

theorem keeps_user (param : Text) (cl : LoginConn) : Keeps cl (cmdUser inet srv param cl) := by
  rw [cmdUser]
  split
  · exact keeps_reply cl _ _
  · exact Keeps.welcome inet srv (.of_eq rfl rfl rfl rfl rfl)

theorem keeps_capEnd (cl : LoginConn) : Keeps cl (capEnd inet srv cl) :=
  Keeps.welcome inet srv (.of_eq rfl rfl rfl rfl rfl)

theorem keeps_address (given : Text) (hostname : Option Text) (classFull : Bool)
    (cl : LoginConn) : Keeps cl (clientApplyRealAddress inet srv given hostname classFull cl) := by
  rw [clientApplyRealAddress]
  split
  · exact keeps_quit cl _
  · dsimp only
    split
    · exact .of_eq rfl rfl rfl rfl rfl
    · split
      · exact .of_eq rfl rfl rfl rfl rfl
      · exact .of_eq rfl rfl rfl rfl rfl

theorem keeps_rescueLookups (now : Nat) (cl : LoginConn) :
    Keeps cl (srv.rescueLookups inet now cl) := by
  rw [LoginServer.rescueLookups]
  split
  · exact Keeps.welcome inet srv (.of_eq rfl rfl rfl rfl rfl)
  · exact .refl cl

/-- A check that took too long: its generation is over. -/
theorem keeps_rescueAuth (now : Nat) (cl : LoginConn) :
    Keeps cl (LoginServer.rescueAuth now cl) := by
  rw [LoginServer.rescueAuth]
  split
  · refine ⟨rfl, ⟨Nat.le_succ _, fun heq => ?_⟩, fun ho => ⟨ho, rfl⟩⟩
    exact absurd heq (Nat.succ_ne_self _)
  · exact .refl cl

theorem keeps_tick (now : Nat) (cl : LoginConn) : Keeps cl (srv.tickConn inet now cl) := by
  have hrescued := (keeps_rescueLookups inet srv now cl).trans (keeps_rescueAuth now _)
  rw [LoginServer.tickConn]
  split
  · exact .refl cl
  · dsimp only
    split
    · exact hrescued.trans (keeps_quit _ _)
    · exact hrescued

end Welcome

theorem keeps_finishOper_false (cfg : LoginConfig) (opName : Text) (cl : LoginConn) :
    Keeps cl (finishOper cfg opName false cl) := by
  rw [finishOper, if_pos rfl]
  dsimp only
  split
  · exact .of_eq rfl rfl rfl rfl rfl
  · exact .of_eq rfl rfl rfl rfl rfl

end LoginConn

/-! ## 2. What the server keeps

`Later` compares two states by the checks of their connections, and `Keeps` says in addition that
nothing has come into the pool that was not there.  A connection that is gone stays gone, since a
new one takes a new number.
-/

/-- The passwords of DIE and of RESTART. -/
def LoginConfig.stopHash (cfg : LoginConfig) (restart : Bool) : Text :=
  if restart then cfg.restartHash else cfg.dieHash

def LoginConfig.stopPassword (cfg : LoginConfig) (restart : Bool) : Text :=
  if restart then cfg.restartPassword else cfg.diePassword

def LoginStep.stop (restart : Bool) (c now : Nat) (given : Text) : LoginStep :=
  if restart then .restart c now given else .die c now given

/-- What a check for DIE or RESTART is for. -/
def AuthPurpose.stop (restart : Bool) : AuthPurpose := if restart then .restart else .die

/-- The jobs that no worker has run yet. -/
def Pool.jobs (p : Pool) : List Job := p.queue ++ (p.taken ++ p.running)

/-- The results that were not polled yet, on the ring or on their way to it. -/
def Pool.answers (p : Pool) : List JobResult := p.done.map Prod.snd ++ p.results

theorem Pool.mem_jobs {p : Pool} {j : Job} :
    j ∈ p.jobs ↔ j ∈ p.queue ∨ j ∈ p.taken ∨ j ∈ p.running := by
  rw [jobs, List.mem_append, List.mem_append]

theorem Pool.mem_answers {p : Pool} {r : JobResult} :
    r ∈ p.answers ↔ (∃ x ∈ p.done, x.2 = r) ∨ r ∈ p.results := by
  rw [answers, List.mem_append, List.mem_map]

namespace LoginServer

/-- Connections stand under their numbers, and the numbers have been given. -/
def Ids (srv : LoginServer) : Prop :=
  ∀ c cl, srv.clients c = some cl → cl.connId = c ∧ c ≤ srv.nextConnId

/-- Checks go on: connections keep theirs or begin later ones, and new ones have new numbers. -/
structure Later (srv srv' : LoginServer) : Prop where
  next : srv.nextConnId ≤ srv'.nextConnId
  conn : ∀ c cl', srv'.clients c = some cl' →
    (∃ cl, srv.clients c = some cl ∧ LoginConn.Onward cl cl') ∨ srv.nextConnId < c

/-- A change that makes no one an operator, stops nothing, asks for no check and answers none. -/
structure Keeps (srv srv' : LoginServer) : Prop where
  next : srv.nextConnId ≤ srv'.nextConnId
  conn : ∀ c cl', srv'.clients c = some cl' →
    (∃ cl, srv.clients c = some cl ∧ LoginConn.Keeps cl cl') ∨
      srv.nextConnId < c ∧ c ≤ srv'.nextConnId ∧ cl'.connId = c ∧ cl'.oper = false
  jobs : ∀ j ∈ srv'.pool.jobs, j ∈ srv.pool.jobs ∨ j.type.isAuth = false
  answers : srv'.pool.answers ⊆ srv.pool.answers
  stop : srv'.shutdownRequested = srv.shutdownRequested
  restart : srv'.restartRequested = srv.restartRequested

variable {inet : IpText} {verify : Text → Text → Bool} {srv srv' : LoginServer}

theorem Later.refl (srv : LoginServer) : Later srv srv :=
  ⟨Nat.le_refl _, fun _ cl h => .inl ⟨cl, h, .refl cl⟩⟩

theorem Later.of_eq (h1 : srv'.nextConnId = srv.nextConnId) (h2 : srv'.clients = srv.clients) :
    Later srv srv' := by
  refine ⟨Nat.le_of_eq h1.symm, fun c cl hcl => ?_⟩
  rw [h2] at hcl
  exact .inl ⟨cl, hcl, .refl cl⟩

theorem Later.trans {a b c : LoginServer} (h : Later a b) (h' : Later b c) : Later a c := by
  refine ⟨h.next.trans h'.next, fun k cl hk => ?_⟩
  rcases h'.conn k cl hk with ⟨cl₁, hcl₁, hon⟩ | hnew
  · rcases h.conn k cl₁ hcl₁ with ⟨cl₀, hcl₀, hon'⟩ | hnew
    · exact .inl ⟨cl₀, hcl₀, hon'.trans hon⟩
    · exact .inr hnew
  · exact .inr (Nat.lt_of_le_of_lt h.next hnew)

/-- A connection that is there was there before, if its number had been given. -/
theorem Later.before (h : Later srv srv') {c : Nat} (hc : c ≤ srv.nextConnId) {cl' : LoginConn}
    (hcl' : srv'.clients c = some cl') :
    ∃ cl, srv.clients c = some cl ∧ LoginConn.Onward cl cl' :=
  (h.conn c cl' hcl').resolve_right (Nat.not_lt_of_le hc)

theorem Keeps.later (h : Keeps srv srv') : Later srv srv' := by
  refine ⟨h.next, fun c cl' hc => ?_⟩
  rcases h.conn c cl' hc with ⟨cl, hcl, hk⟩ | hnew
  · exact .inl ⟨cl, hcl, hk.onward⟩
  · exact .inr hnew.1

theorem Keeps.refl (srv : LoginServer) : Keeps srv srv :=
  ⟨Nat.le_refl _, fun _ cl h => .inl ⟨cl, h, .refl cl⟩, fun _ h => .inl h, fun _ h => h, rfl, rfl⟩

theorem Keeps.of_conns (f : Nat → Option LoginConn)
    (h : ∀ c cl', f c = some cl' → ∃ cl, srv.clients c = some cl ∧ LoginConn.Keeps cl cl') :
    Keeps srv { srv with clients := f } :=
  ⟨Nat.le_refl _, fun c cl' hc => .inl (h c cl' hc), fun _ h => .inl h, fun _ h => h, rfl, rfl⟩

section SetConn

variable {c : Nat} {cl cl' : LoginConn}

theorem setConn_clients (srv : LoginServer) (cl : LoginConn) (c : Nat) :
    (srv.setConn cl).clients c = if c = cl.connId then some cl else srv.clients c := rfl

theorem setConn_self (h : cl'.connId = c) : (srv.setConn cl').clients c = some cl' := by
  rw [setConn_clients, if_pos h.symm]

theorem Keeps.setConn (hcl : srv.clients c = some cl) (hid : cl.connId = c)
    (h : LoginConn.Keeps cl cl') : Keeps srv (srv.setConn cl') := by
  refine Keeps.of_conns _ fun k clk hk => ?_
  have hid' : cl'.connId = c := by rw [h.connId, hid]
  by_cases hkc : k = cl'.connId
  · rw [if_pos hkc] at hk
    rw [← Option.some.inj hk]
    exact ⟨cl, by rw [hkc, hid', hcl], h⟩
  · rw [if_neg hkc] at hk
    exact ⟨clk, hk, .refl clk⟩

theorem Later.setConn (hcl : srv.clients c = some cl) (hid : cl'.connId = c)
    (h : LoginConn.Onward cl cl') : Later srv (srv.setConn cl') := by
  refine ⟨Nat.le_refl _, fun k clk hk => ?_⟩
  rw [setConn_clients] at hk
  by_cases hkc : k = cl'.connId
  · rw [if_pos hkc] at hk
    rw [← Option.some.inj hk]
    exact .inl ⟨cl, by rw [hkc, hid, hcl], h⟩
  · rw [if_neg hkc] at hk
    exact .inl ⟨clk, hk, .refl clk⟩

end SetConn

/-! ## 3. What was asked, and proved

What a command asks of a worker is an `Attempt`, and what comes of it is `Confirmed`.  `Granted` and
`Stopped` are the two results in terms of one step; the definitions that the theorems speak with,
`OperProved` and `StopProved`, place that step in the run.
-/

section Asked

variable (inet : IpText) (verify : Text → Text → Bool) (cfg : LoginConfig)

/-- The step is an OPER of a user who is registered, it names a block with a hashed password, whose
hosts admit the user, and `j` is the job that checks it. -/
def OperAsked (es : List LoginStep) (e : LoginStep) (j : Job) (account : Text) : Prop :=
  ∃ c now name password, e = .oper c now name password ∧
    ∃ cl op, (run inet verify cfg es).clients c = some cl ∧ cl.registered = true ∧
      (run inet verify cfg es).operBlock inet cl name = some op ∧ op.passwordHash ≠ [] ∧
      j = passwordJob cl .oper password op.passwordHash ∧ account = clip 64 op.name

/-- The step is a DIE or a RESTART of an operator who is registered and has the privilege. -/
def StopAsked (es : List LoginStep) (e : LoginStep) (j : Job) (restart : Bool) : Prop :=
  ∃ c now given, e = LoginStep.stop restart c now given ∧
    ∃ cl, (run inet verify cfg es).clients c = some cl ∧ cl.registered = true ∧ cl.oper = true ∧
      cl.operPrivs &&& OperPriv.die ≠ 0 ∧
      (run inet verify cfg es).cfg.stopHash restart ≠ [] ∧
      j = passwordJob cl (.stop restart) given ((run inet verify cfg es).cfg.stopHash restart)

/-- What a job is for. -/
def AskedBy (es : List LoginStep) (e : LoginStep) (j : Job) (account : Text) : Prop :=
  match j.purpose with
  | .oper => OperAsked inet verify cfg es e j account
  | .die => StopAsked inet verify cfg es e j false
  | .restart => StopAsked inet verify cfg es e j true

/-- **An attempt**: after the run `es`, the step `e` has sent the job `j` to the workers, and the
connection is in the generation of the job. -/
structure Attempt (es : List LoginStep) (e : LoginStep) (j : Job) (account : Text) : Prop where
  asked : AskedBy inet verify cfg es e j account
  queued : j ∈ ((run inet verify cfg es).step inet verify e).pool.queue
  begun : ∃ cl, ((run inet verify cfg es).step inet verify e).clients j.connId = some cl ∧
    cl.authGen = j.gen

/-- In the steps `es₂` after `es₁`, a worker that was running the job came to an answer. -/
def Ran (es₁ es₂ : List LoginStep) (j : Job) (ans : JobAnswer) : Prop :=
  ∃ es₃ i es₄, es₂ = es₃ ++ .finish i ans :: es₄ ∧
    (run inet verify cfg (es₁ ++ es₃)).pool.running[i]? = some j

/-- During the steps `es₂` after `es₁` the connection is there, in the generation of the job. -/
def Stays (es₁ es₂ : List LoginStep) (j : Job) : Prop :=
  ∀ es₃, es₃ <+: es₂ → ∃ cl, (run inet verify cfg (es₁ ++ es₃)).clients j.connId = some cl ∧
    cl.authGen = j.gen

/-- Somewhere in the run the job was sent off. -/
def Asked (es : List LoginStep) (j : Job) (account : Text) : Prop :=
  ∃ es₁ e es₂, es = es₁ ++ [e] ++ es₂ ∧ Attempt inet verify cfg es₁ e j account

/-- Somewhere in the run the job was sent off, and later run. -/
def Checked (es : List LoginStep) (j : Job) (ans : JobAnswer) (account : Text) : Prop :=
  ∃ es₁ e es₂, es = es₁ ++ [e] ++ es₂ ∧ Attempt inet verify cfg es₁ e j account ∧
    Ran inet verify cfg (es₁ ++ [e]) es₂ j ans

/-- **The check of an attempt** is there to be polled after the run: the attempt was made, a worker
has run its job and found the password right, and all the time since the attempt the connection has
been there, with no later check begun and this one not given up. -/
def Confirmed (es : List LoginStep) (j : Job) (account : Text) : Prop :=
  ∃ es₁ e es₂ ans, es = es₁ ++ [e] ++ es₂ ∧ Attempt inet verify cfg es₁ e j account ∧
    Ran inet verify cfg (es₁ ++ [e]) es₂ j ans ∧ Stays inet verify cfg (es₁ ++ [e]) es₂ j ∧
    verify j.secret j.hash = true ∧
    j.result verify ans ∈ ((run inet verify cfg es).pool.poll 32).1

/-- **The step makes a user an operator**: an OPER that names a block of the configuration of that
moment whose hosts admit the user, with its password in the clear, or the answer to such an OPER. -/
inductive Granted (es : List LoginStep) (c : Nat) (operName : Text) : LoginStep → Prop
  | plain (now : Nat) (name password : Text) (cl : LoginConn) (op : Operator)
    (hcl : (run inet verify cfg es).clients c = some cl) (hreg : cl.registered = true)
    (hop : (run inet verify cfg es).operBlock inet cl name = some op)
    (hplain : op.passwordHash = []) (hpw : cryptoSecureStreq password op.password = true)
    (hname : operName = clip 64 op.name) : Granted es c operName (.oper c now name password)
  | checked (now : Nat) (j : Job) (hconn : j.connId = c) (hpurpose : j.purpose = .oper)
    (h : Confirmed inet verify cfg es j operName) : Granted es c operName (.drain now)

/-- **The step stops the server**: a DIE or RESTART of an operator who has the privilege, with the
password of that moment in the clear or with none configured, or the answer to one. -/
inductive Stopped (es : List LoginStep) (restart : Bool) : LoginStep → Prop
  | plain (c now : Nat) (given : Text) (cl : LoginConn)
    (hcl : (run inet verify cfg es).clients c = some cl) (hreg : cl.registered = true)
    (hoper : cl.oper = true) (hpriv : cl.operPrivs &&& OperPriv.die ≠ 0)
    (hplain : (run inet verify cfg es).cfg.stopHash restart = [])
    (hpw : checkExtraPassword ((run inet verify cfg es).cfg.stopPassword restart) given = true) :
    Stopped es restart (LoginStep.stop restart c now given)
  | checked (now : Nat) (j : Job) (account : Text) (hpurpose : j.purpose = .stop restart)
    (h : Confirmed inet verify cfg es j account) : Stopped es restart (.drain now)

/-- The connection is an operator by that name. -/
def IsOper (srv : LoginServer) (c : Nat) (operName : Text) : Prop :=
  ∃ cl, srv.clients c = some cl ∧ cl.oper = true ∧ cl.operName = operName

/-- **A user has proved to be an operator**: one step of the run has made the user one, and nothing
has taken it away since. -/
def OperProved (es : List LoginStep) (c : Nat) (operName : Text) : Prop :=
  ∃ es₁ e es₂, es = es₁ ++ e :: es₂ ∧ ¬ IsOper (run inet verify cfg es₁) c operName ∧
    Granted inet verify cfg es₁ c operName e ∧
    ∀ es₃, es₃ <+: es₂ → IsOper (run inet verify cfg (es₁ ++ e :: es₃)) c operName

/-- **An operator has stopped the server**: the run has a step that does it, a DIE or RESTART of a
registered operator with the privilege, or the answer to one. `Stopped` says what is asked of the
password. -/
def StopProved (es : List LoginStep) (restart : Bool) : Prop :=
  ∃ es₁ e es₂, es = es₁ ++ e :: es₂ ∧ Stopped inet verify cfg es₁ restart e

/-- What a job is vouched for by: while its connection is in its generation, `A` holds of the name
that is kept for the answer. -/
structure Vouched (srv : LoginServer) (j : Job) (A : Text → Prop) : Prop where
  known : j.connId ≤ srv.nextConnId
  conn : ∀ cl, srv.clients j.connId = some cl → j.gen ≤ cl.authGen ∧
    (j.gen = cl.authGen → A cl.pendingAccount)

/-- A result is that of a password job that was asked for and run. -/
def Answered (es : List LoginStep) (srv : LoginServer) (r : JobResult) : Prop :=
  ∃ j ans, r = j.result verify ans ∧ j.type = .sasl ∧
    Vouched srv j (Checked inet verify cfg es j ans)

/-- **The invariant**, where `Op` says who may be an operator and `St` what may stop the server.
Jobs and answers that are on their way are part of it, each with the request that it belongs to,
since an answer comes steps after the request, when the connection may be another's. -/
structure Sound (es : List LoginStep) (Op : Nat → Text → Prop) (St : Bool → Prop)
    (srv : LoginServer) : Prop where
  ids : Ids srv
  jobs : ∀ j ∈ srv.pool.jobs, j.type.isAuth = true → j.type = .sasl ∧
    Vouched srv j (Asked inet verify cfg es j)
  answers : ∀ r ∈ srv.pool.answers, r.type.isAuth = true → Answered inet verify cfg es srv r
  opers : ∀ c cl, srv.clients c = some cl → cl.oper = true → Op c cl.operName
  stop : srv.shutdownRequested = true → ∃ restart, St restart
  restart : srv.restartRequested = true → St true

/-- The invariant goes on to hold, and so do the checks. -/
structure Goes (es : List LoginStep) (Op : Nat → Text → Prop) (St : Bool → Prop)
    (srv srv' : LoginServer) : Prop where
  sound : Sound inet verify cfg es Op St srv'
  later : Later srv srv'

/-- What a right answer to a check brings. -/
def Earned (Op : Nat → Text → Prop) (St : Bool → Prop) (c : Nat) (account : Text) :
    AuthPurpose → Prop
  | .oper => Op c (clip 64 account)
  | .die => St false
  | .restart => St true

end Asked

/-! ## 4. What lasts

A longer run has the same attempts and checks in it.  A job that is vouched for stays so in a later
state: either its connection has gone on to another generation, which is higher, or nothing about
the check has changed.
-/

section Lasting

variable {cfg : LoginConfig} {es : List LoginStep} {Op : Nat → Text → Prop} {St : Bool → Prop}

/-- What an earlier step has shown stays shown. -/
theorem split_snoc {es₁ es₂ : List LoginStep} {e e' : LoginStep} (h : es = es₁ ++ e :: es₂) :
    es ++ [e'] = es₁ ++ e :: (es₂ ++ [e']) := by
  rw [h, List.append_assoc, List.cons_append]

theorem Asked.snoc {j : Job} {account : Text} (h : Asked inet verify cfg es j account)
    (e : LoginStep) : Asked inet verify cfg (es ++ [e]) j account := by
  obtain ⟨es₁, e', es₂, hes, hattempt⟩ := h
  exact ⟨es₁, e', es₂ ++ [e], by rw [hes, List.append_assoc], hattempt⟩

theorem Ran.snoc {es₁ es₂ : List LoginStep} {j : Job} {ans : JobAnswer}
    (h : Ran inet verify cfg es₁ es₂ j ans) (e : LoginStep) :
    Ran inet verify cfg es₁ (es₂ ++ [e]) j ans := by
  obtain ⟨es₃, i, es₄, hes, hrun⟩ := h
  exact ⟨es₃, i, es₄ ++ [e], split_snoc hes, hrun⟩

theorem Checked.snoc {j : Job} {ans : JobAnswer} {account : Text}
    (h : Checked inet verify cfg es j ans account) (e : LoginStep) :
    Checked inet verify cfg (es ++ [e]) j ans account := by
  obtain ⟨es₁, e', es₂, hes, hattempt, hran⟩ := h
  exact ⟨es₁, e', es₂ ++ [e], by rw [hes, List.append_assoc], hattempt, hran.snoc e⟩

theorem Asked.checked {j : Job} {account : Text} (h : Asked inet verify cfg es j account) {i : Nat}
    (hrun : (run inet verify cfg es).pool.running[i]? = some j) (ans : JobAnswer) :
    Checked inet verify cfg (es ++ [.finish i ans]) j ans account := by
  obtain ⟨es₁, e, es₂, rfl, hattempt⟩ := h
  exact ⟨es₁, e, es₂ ++ [.finish i ans], by rw [List.append_assoc], hattempt, es₂, i, [], rfl, hrun⟩

theorem StopProved.snoc {restart : Bool} (h : StopProved inet verify cfg es restart)
    (e : LoginStep) : StopProved inet verify cfg (es ++ [e]) restart := by
  obtain ⟨es₁, e', es₂, hes, hstopped⟩ := h
  exact ⟨es₁, e', es₂ ++ [e], split_snoc hes, hstopped⟩

theorem Vouched.imp {j : Job} {A B : Text → Prop} (h : Vouched srv j A) (hAB : ∀ a, A a → B a) :
    Vouched srv j B :=
  ⟨h.known, fun cl hcl => ⟨(h.conn cl hcl).1, fun hgen => hAB _ ((h.conn cl hcl).2 hgen)⟩⟩

/-- **A job stays vouched for.** -/
theorem Vouched.later {j : Job} {A : Text → Prop} (h : Vouched srv j A) (hl : Later srv srv') :
    Vouched srv' j A := by
  refine ⟨h.known.trans hl.next, fun cl' hcl' => ?_⟩
  obtain ⟨cl, hcl, hle, hsame⟩ := hl.before h.known hcl'
  obtain ⟨hgen, hasked⟩ := h.conn cl hcl
  refine ⟨hgen.trans hle, fun heq => ?_⟩
  rw [hsame (by omega)]
  exact hasked (by omega)

theorem Answered.later {r : JobResult} (h : Answered inet verify cfg es srv r)
    (hl : Later srv srv') : Answered inet verify cfg es srv' r := by
  obtain ⟨j, ans, hr, htype, hv⟩ := h
  exact ⟨j, ans, hr, htype, hv.later hl⟩

theorem Answered.snoc {r : JobResult} (h : Answered inet verify cfg es srv r) (e : LoginStep) :
    Answered inet verify cfg (es ++ [e]) srv r := by
  obtain ⟨j, ans, hr, htype, hv⟩ := h
  exact ⟨j, ans, hr, htype, hv.imp fun _ h => h.snoc e⟩

theorem Sound.snoc (h : Sound inet verify cfg es Op St srv) (e : LoginStep) :
    Sound inet verify cfg (es ++ [e]) Op St srv :=
  { h with
    jobs := fun j hj hauth =>
      ⟨(h.jobs j hj hauth).1, (h.jobs j hj hauth).2.imp fun _ hasked => hasked.snoc e⟩
    answers := fun r hr hauth => (h.answers r hr hauth).snoc e }

theorem Sound.imp {Op' : Nat → Text → Prop} {St' : Bool → Prop}
    (h : Sound inet verify cfg es Op St srv) (hOp : ∀ c a, Op c a → Op' c a)
    (hSt : ∀ restart, St restart → St' restart) : Sound inet verify cfg es Op' St' srv :=
  { h with
    opers := fun c cl hcl ho => hOp _ _ (h.opers c cl hcl ho)
    stop := fun hs => (h.stop hs).imp hSt
    restart := fun hs => hSt _ (h.restart hs) }

theorem Sound.keeps (h : Sound inet verify cfg es Op St srv) (hk : Keeps srv srv') :
    Goes inet verify cfg es Op St srv srv' := by
  refine ⟨?_, hk.later⟩
  refine { ids := ?_, jobs := ?_, answers := ?_, opers := ?_, stop := ?_, restart := ?_ }
  · intro c cl' hc
    rcases hk.conn c cl' hc with ⟨cl, hcl, hkeeps⟩ | ⟨hnew, hle, hid, -⟩
    · obtain ⟨hid, hle⟩ := h.ids c cl hcl
      exact ⟨by rw [hkeeps.connId, hid], hle.trans hk.next⟩
    · exact ⟨hid, hle⟩
  · intro j hj hauth
    rcases hk.jobs j hj with hj | hno
    · obtain ⟨htype, hv⟩ := h.jobs j hj hauth
      exact ⟨htype, hv.later hk.later⟩
    · rw [hno] at hauth
      cases hauth
  · exact fun r hr hauth => (h.answers r (hk.answers hr) hauth).later hk.later
  · intro c cl' hc ho
    rcases hk.conn c cl' hc with ⟨cl, hcl, hkeeps⟩ | ⟨-, -, -, hno⟩
    · obtain ⟨ho', hname⟩ := hkeeps.oper ho
      rw [hname]
      exact h.opers c cl hcl ho'
    · rw [hno] at ho
      cases ho
  · exact fun hs => h.stop (by rw [← hk.stop, hs])
  · exact fun hs => h.restart (by rw [← hk.restart, hs])

theorem Sound.stays (h : Sound inet verify cfg es Op St srv) :
    Goes inet verify cfg es Op St srv srv := ⟨h, .refl srv⟩

theorem Goes.trans {a b c : LoginServer} (h : Goes inet verify cfg es Op St a b)
    (h' : Goes inet verify cfg es Op St b c) : Goes inet verify cfg es Op St a c :=
  ⟨h'.sound, h.later.trans h'.later⟩

end Lasting

/-! ## 5. Steps that change nothing here

What the pool does by itself moves jobs and results along.  Only `finish` makes a result, and it is
the one step of a worker that the run has to remember.
-/

section Plain

variable {c : Nat} {cl : LoginConn}

theorem Keeps.pool {p : Pool} (hjobs : ∀ j ∈ p.jobs, j ∈ srv.pool.jobs ∨ j.type.isAuth = false)
    (hanswers : p.answers ⊆ srv.pool.answers) : Keeps srv { srv with pool := p } :=
  ⟨Nat.le_refl _, fun _ cl h => .inl ⟨cl, h, .refl cl⟩, hjobs, hanswers, rfl, rfl⟩

theorem keeps_take {j : Job} {p : Pool} (h : srv.pool.take = some (j, p)) :
    Keeps srv { srv with pool := p } := by
  obtain ⟨rest, hq, -, rfl⟩ := Pool.take_some h
  refine Keeps.pool (fun k hk => .inl ?_) fun r hr => hr
  rw [Pool.mem_jobs] at hk ⊢
  rw [hq]
  rcases hk with hk | hk | hk
  · exact .inl (List.mem_cons_of_mem _ hk)
  · simp only at hk
    split at hk
    · exact .inr (.inl hk)
    · rcases List.mem_append.mp hk with hk | hk
      · exact .inr (.inl hk)
      · rw [List.mem_singleton.mp hk]
        exact .inl List.mem_cons_self
  · exact .inr (.inr hk)

theorem keeps_begin {i : Nat} {p : Pool} (h : srv.pool.begin i = some p) :
    Keeps srv { srv with pool := p } := by
  obtain ⟨j, hj, -, rfl⟩ := Pool.begin_some h
  refine Keeps.pool (fun k hk => .inl ?_) fun r hr => hr
  rw [Pool.mem_jobs] at hk ⊢
  rcases hk with hk | hk | hk
  · exact .inl hk
  · exact .inr (.inl (List.mem_of_mem_eraseIdx hk))
  · rcases List.mem_append.mp hk with hk | hk
    · exact .inr (.inr hk)
    · rw [List.mem_singleton.mp hk]
      exact .inr (.inl (List.mem_of_getElem? hj))

theorem keeps_push {i : Nat} {x : Job × JobResult} {p : Pool}
    (h : srv.pool.push i = some (x, p)) : Keeps srv { srv with pool := p } := by
  obtain ⟨hx, rfl⟩ := Pool.push_some h
  rw [Pool.pushResult_eq]
  refine Keeps.pool (fun k hk => .inl hk) fun r hr => ?_
  rw [Pool.mem_answers] at hr ⊢
  rcases hr with ⟨y, hy, rfl⟩ | hr
  · exact .inl ⟨y, List.mem_of_mem_eraseIdx hy, rfl⟩
  · simp only at hr
    split at hr
    · rcases List.mem_append.mp hr with hr | hr
      · exact .inr hr
      · rw [List.mem_singleton.mp hr]
        exact .inl ⟨x, List.mem_of_getElem? hx, rfl⟩
    · exact .inr hr

theorem mem_jobs_submit {p p' : Pool} {j k : Job} (h : p.submit j = some p') (hk : k ∈ p'.jobs) :
    k ∈ p.jobs ∨ k = j := by
  obtain ⟨-, rfl⟩ := Pool.submit_some h
  rw [Pool.mem_jobs] at hk ⊢
  rcases hk with hk | hk | hk
  · simp only at hk
    split at hk
    · rcases List.mem_cons.mp hk with rfl | hk
      · exact .inr rfl
      · exact .inl (.inl hk)
    · rcases List.mem_append.mp hk with hk | hk
      · exact .inl (.inl hk)
      · exact .inr (List.mem_singleton.mp hk)
  · exact .inl (.inr (.inl hk))
  · exact .inl (.inr (.inr hk))

theorem answers_submit {p p' : Pool} {j : Job} (h : p.submit j = some p') :
    p'.answers = p.answers := by
  obtain ⟨-, rfl⟩ := Pool.submit_some h
  rfl

theorem mem_queue_submit {p p' : Pool} {j : Job} (h : p.submit j = some p') : j ∈ p'.queue := by
  obtain ⟨-, rfl⟩ := Pool.submit_some h
  dsimp only
  split
  · exact List.mem_cons_self
  · exact List.mem_append_right _ (List.mem_singleton_self j)

theorem trySubmit_answers (p : Pool) (wanted : Bool) (j : Job) :
    (trySubmit p wanted j).1.answers = p.answers := by
  rw [trySubmit]
  split
  · split
    · next h => exact answers_submit h
    · rfl
  · rfl

theorem mem_jobs_trySubmit {p : Pool} {wanted : Bool} {j k : Job}
    (hk : k ∈ (trySubmit p wanted j).1.jobs) : k ∈ p.jobs ∨ k = j := by
  rw [trySubmit] at hk
  split at hk
  · split at hk
    · next h => exact mem_jobs_submit h hk
    · exact .inl hk
  · exact .inl hk

theorem keeps_accept (now : Nat) (ip : Text) (port localPort : Nat) (looked : Bool) :
    Keeps srv (srv.accept now ip port localPort looked) := by
  refine ⟨Nat.le_succ _, fun k cl hk => ?_, fun j hj => ?_, fun r hr => ?_, rfl, rfl⟩
  · rw [accept, setConn_clients] at hk
    by_cases hkc : k = srv.nextConnId + 1
    · rw [if_pos hkc] at hk
      rw [← Option.some.inj hk]
      exact .inr ⟨by omega, Nat.le_of_eq hkc, hkc.symm, rfl⟩
    · rw [if_neg hkc] at hk
      exact .inl ⟨cl, hk, .refl cl⟩
  · rcases mem_jobs_trySubmit hj with hj | rfl
    · rcases mem_jobs_trySubmit hj with hj | rfl
      · rcases mem_jobs_trySubmit hj with hj | rfl
        · exact .inl hj
        · exact .inr rfl
      · exact .inr rfl
    · exact .inr rfl
  · have hsame : (srv.accept now ip port localPort looked).pool.answers = srv.pool.answers := by
      simp only [accept, LoginServer.setConn, trySubmit_answers]
    rw [← hsame]
    exact hr

theorem keeps_remove (c : Nat) : Keeps srv (srv.removeClient c) := by
  refine ⟨Nat.le_refl _, fun k cl hk => .inl ⟨cl, ?_, .refl cl⟩, fun _ h => .inl h,
    fun _ h => h, rfl, rfl⟩
  simp only [removeClient] at hk
  split at hk
  · cases hk
  · exact hk

theorem keeps_tick (now : Nat) : Keeps srv (srv.tick inet now) := by
  refine Keeps.of_conns _ fun k cl' hk => ?_
  obtain ⟨cl, hcl, rfl⟩ := Option.map_eq_some_iff.mp hk
  exact ⟨cl, hcl, LoginConn.keeps_tick inet srv now cl⟩

/-- A blocklist hit: the connection and others from its address quit. -/
theorem keeps_dnsblHit (hcl : srv.clients c = some cl) (hid : cl.connId = c) (now : Nat)
    {cl' : LoginConn}
    (hk : LoginConn.Keeps cl cl') (z : Blacklist) (reply : Text) :
    Keeps srv (srv.dnsblHit inet now cl' z reply) := by
  -- whatever becomes of the lines
  have hhit : ∀ (srv' : LoginServer) (quit reason : Text), srv'.clients = srv.clients →
      ∀ k clk, ((srv'.enforce inet cl'.ip .Z quit cl'.connId).setConn
        (cl'.quit reason)).clients k = some clk →
      ∃ cl, srv.clients k = some cl ∧ LoginConn.Keeps cl clk := by
    intro srv' quit reason hsame k clk hk'
    rw [setConn_clients] at hk'
    by_cases hkc : k = (cl'.quit reason).connId
    · rw [if_pos hkc] at hk'
      rw [← Option.some.inj hk']
      refine ⟨cl, ?_, hk.trans (LoginConn.keeps_quit cl' reason)⟩
      rw [hkc, ← hcl, ← hid, ← hk.connId]
      rfl
    · rw [if_neg hkc] at hk'
      obtain ⟨cl₀, hcl₀, rfl⟩ := Option.map_eq_some_iff.mp hk'
      refine ⟨cl₀, by rw [← hsame, hcl₀], ?_⟩
      split
      · exact LoginConn.keeps_quit cl₀ quit
      · exact .refl cl₀
  unfold dnsblHit
  dsimp only
  split
  · exact ⟨Nat.le_refl _, fun k clk hk' => .inl (hhit srv _ _ rfl k clk hk'), fun _ h => .inl h,
      fun _ h => h, rfl, rfl⟩
  · exact ⟨Nat.le_refl _, fun k clk hk' => .inl (hhit _ _ _ rfl k clk hk'), fun _ h => .inl h,
      fun _ h => h, rfl, rfl⟩

end Plain

/-! ## 6. Checks

Each lemma here is about one function of the source, in any state of a step, with what it may bring
as `Op` and `St`.
-/

section Checks

variable {cfg : LoginConfig} {es : List LoginStep} {Op : Nat → Text → Prop} {St : Bool → Prop}
  {c : Nat} {cl cl' : LoginConn}

theorem Sound.setConn (h : Sound inet verify cfg es Op St srv) (hcl : srv.clients c = some cl)
    (hid : cl'.connId = c) (hon : LoginConn.Onward cl cl')
    (hoper : cl'.oper = true → Op c cl'.operName) :
    Goes inet verify cfg es Op St srv (srv.setConn cl') := by
  have hl : Later srv (srv.setConn cl') := Later.setConn hcl hid hon
  refine ⟨{ h with ids := ?_, jobs := ?_, answers := ?_, opers := ?_ }, hl⟩
  · intro k clk hk
    rw [setConn_clients] at hk
    by_cases hkc : k = cl'.connId
    · rw [if_pos hkc] at hk
      rw [← Option.some.inj hk]
      exact ⟨hkc.symm, by rw [hkc, hid]; exact (h.ids c cl hcl).2⟩
    · rw [if_neg hkc] at hk
      exact h.ids k clk hk
  · intro j hj hauth
    obtain ⟨htype, hv⟩ := h.jobs j hj hauth
    exact ⟨htype, hv.later hl⟩
  · exact fun r hr hauth => (h.answers r hr hauth).later hl
  · intro k clk hk ho
    rw [setConn_clients] at hk
    by_cases hkc : k = cl'.connId
    · rw [if_pos hkc] at hk
      rw [← Option.some.inj hk] at ho ⊢
      rw [hkc, hid]
      exact hoper ho
    · rw [if_neg hkc] at hk
      exact h.opers k clk hk ho

theorem Sound.keepsConn (h : Sound inet verify cfg es Op St srv) (hcl : srv.clients c = some cl)
    (hk : LoginConn.Keeps cl cl') : Goes inet verify cfg es Op St srv (srv.setConn cl') :=
  h.keeps (Keeps.setConn hcl (h.ids c cl hcl).1 hk)

/-- A job that is vouched for joins the queue. -/
theorem Sound.addJob (h : Sound inet verify cfg es Op St srv) {j : Job} {p : Pool}
    (hsub : srv.pool.submit j = some p) (htype : j.type = .sasl)
    (hv : Vouched srv j (Asked inet verify cfg es j)) :
    Goes inet verify cfg es Op St srv { srv with pool := p } := by
  have hl : Later srv { srv with pool := p } := .of_eq rfl rfl
  refine ⟨{ h with jobs := ?_, answers := ?_ }, hl⟩
  · intro k hk hauth
    rcases mem_jobs_submit hsub hk with hk | rfl
    · obtain ⟨htype, hv⟩ := h.jobs k hk hauth
      exact ⟨htype, hv.later hl⟩
    · exact ⟨htype, hv.later hl⟩
  · intro r hr hauth
    simp only [answers_submit hsub] at hr
    exact (h.answers r hr hauth).later hl

/-- The connection that a check has begun for. -/
def checking (now : Nat) (account : Text) (pending : Bool) (cl : LoginConn) : LoginConn :=
  { cl with
    pendingAccount := account, authPending := pending, authStarted := now
    authGen := cl.authGen + 1 }

theorem keeps_checking (now : Nat) (account : Text) (pending : Bool) (cl : LoginConn) :
    LoginConn.Keeps cl (checking now account pending cl) :=
  ⟨rfl, ⟨Nat.le_succ _, fun heq => absurd heq (Nat.succ_ne_self _)⟩, fun ho => ⟨ho, rfl⟩⟩

/-- What sending a password off comes to: the job is queued, or there is no room for it. -/
theorem submitted_eq (srv : LoginServer) (cl : LoginConn) (now : Nat) (account : Text)
    (purpose : AuthPurpose) (given hash numeric : Text) :
    srv.submitted (submitCheck now srv.pool { cl with pendingAccount := account } purpose given
        hash) numeric =
      match srv.pool.submit (passwordJob cl purpose given hash) with
      | some p => { srv.setConn (checking now account true cl) with pool := p }
      | none => srv.setConn ((checking now account false cl).reply numeric
          "Server is busy -- try again shortly".toList) := by
  rw [submitCheck]
  have hjob : passwordJob { cl with pendingAccount := account } purpose given hash =
      passwordJob cl purpose given hash := rfl
  rw [hjob]
  cases srv.pool.submit (passwordJob cl purpose given hash) with
  | some p => rfl
  | none => rfl

/-- **A check begins**, or the queue is full. -/
theorem Sound.submitted (h : Sound inet verify cfg es Op St srv) (hcl : srv.clients c = some cl)
    {purpose : AuthPurpose} {given hash : Text} (account : Text) (now : Nat) (numeric : Text)
    (hasked : ∀ p, srv.pool.submit (passwordJob cl purpose given hash) = some p →
      Asked inet verify cfg es (passwordJob cl purpose given hash) account) :
    Goes inet verify cfg es Op St srv (srv.submitted
      (submitCheck now srv.pool { cl with pendingAccount := account } purpose given hash)
      numeric) := by
  have hid := (h.ids c cl hcl).1
  rw [submitted_eq]
  cases hsub : srv.pool.submit (passwordJob cl purpose given hash) with
  | none =>
    exact h.keepsConn hcl ((keeps_checking now account false cl).trans (LoginConn.keeps_reply _ _ _))
  | some p =>
    have hset := h.keepsConn hcl (keeps_checking now account true cl)
    refine hset.trans (hset.sound.addJob hsub rfl ⟨?_, fun clk hk => ?_⟩)
    · exact (h.ids c cl hcl).2.trans' (Nat.le_of_eq hid)
    · have hself : (srv.setConn (checking now account true cl)).clients cl.connId = some _ :=
        setConn_self rfl
      rw [← Option.some.inj (hself.symm.trans hk)]
      exact ⟨Nat.le_refl _, fun _ => hasked p hsub⟩

/-- A command that has sent a password off has made an attempt. -/
theorem Attempt.of_submitted {e : LoginStep} {purpose : AuthPurpose}
    {given hash account numeric : Text} {now : Nat} {p : Pool}
    (hsub : (run inet verify cfg es).pool.submit (passwordJob cl purpose given hash) = some p)
    (hstep : (run inet verify cfg es).step inet verify e = (run inet verify cfg es).submitted
      (submitCheck now (run inet verify cfg es).pool { cl with pendingAccount := account } purpose
        given hash) numeric)
    (hasked : AskedBy inet verify cfg es e (passwordJob cl purpose given hash) account) :
    Attempt inet verify cfg es e (passwordJob cl purpose given hash) account := by
  rw [submitted_eq, hsub] at hstep
  refine ⟨hasked, ?_, ?_⟩
  · rw [hstep]
    exact mem_queue_submit hsub
  · rw [hstep]
    exact ⟨checking now account true cl, setConn_self rfl, rfl⟩

/-- **The password was right**: the user is an operator. -/
theorem Sound.grant (h : Sound inet verify cfg es Op St srv) (hcl : srv.clients c = some cl)
    (cfg' : LoginConfig) {opName : Text} (hop : Op c (clip 64 opName)) :
    Goes inet verify cfg es Op St srv (srv.setConn (finishOper cfg' opName true cl)) :=
  h.setConn hcl (h.ids c cl hcl).1 ⟨Nat.le_refl _, fun _ => rfl⟩ fun _ => hop

theorem Sound.finishDieOrRestart (h : Sound inet verify cfg es Op St srv)
    (hcl : srv.clients c = some cl) (isRestart pwOk : Bool) (hok : pwOk = true → St isRestart) :
    Goes inet verify cfg es Op St srv (srv.finishDieOrRestart cl isRestart pwOk) := by
  cases pwOk with
  | false =>
    rw [LoginServer.finishDieOrRestart, if_pos rfl]
    exact h.keepsConn hcl (LoginConn.keeps_reply cl _ _)
  | true =>
    rw [LoginServer.finishDieOrRestart, if_neg (by decide)]
    have hst := hok rfl
    have hl : Later srv { srv with
        restartRequested := if isRestart then true else srv.restartRequested
        shutdownRequested := true } := .of_eq rfl rfl
    refine ⟨{ h with jobs := ?_, answers := ?_, stop := fun _ => ⟨_, hst⟩, restart := ?_ }, hl⟩
    · intro j hj hauth
      obtain ⟨htype, hv⟩ := h.jobs j hj hauth
      exact ⟨htype, hv.later hl⟩
    · exact fun r hr hauth => (h.answers r hr hauth).later hl
    · intro hr
      cases isRestart with
      | false => exact h.restart hr
      | true => exact hst

/-- **The answer to a check** brings what the check was for, if the password was right. -/
theorem Sound.finishPrivilegedAuth (h : Sound inet verify cfg es Op St srv)
    (hcl : srv.clients c = some cl) (purpose : AuthPurpose) (success : Bool)
    (hok : success = true → Earned Op St c cl.pendingAccount purpose) :
    Goes inet verify cfg es Op St srv (srv.cmdFinishPrivilegedAuth cl purpose success) := by
  have hid := (h.ids c cl hcl).1
  have hk : LoginConn.Keeps cl { cl with authPending := false } := .of_eq rfl rfl rfl rfl rfl
  have hset := h.keepsConn hcl hk
  have hself : (srv.setConn { cl with authPending := false }).clients c = some _ := setConn_self hid
  unfold cmdFinishPrivilegedAuth
  cases purpose with
  | oper =>
    cases success with
    | false => exact hset.trans (hset.sound.keepsConn hself (LoginConn.keeps_finishOper_false ..))
    | true => exact hset.trans (hset.sound.grant hself _ (hok rfl))
  | die => exact hset.trans (hset.sound.finishDieOrRestart hself false success hok)
  | restart => exact hset.trans (hset.sound.finishDieOrRestart hself true success hok)

/-- **The answer to a password check**: it is for what the connection has asked last, or for
nothing. -/
theorem Sound.authResult (h : Sound inet verify cfg es Op St srv) {r : JobResult}
    (hcl : srv.clients r.connId = some cl) (hr : Answered inet verify cfg es srv r)
    (hearned : ∀ j ans, r = j.result verify ans → verify j.secret j.hash = true →
      j.gen = cl.authGen → Checked inet verify cfg es j ans cl.pendingAccount →
      Earned Op St j.connId cl.pendingAccount j.purpose) :
    Goes inet verify cfg es Op St srv (srv.authResult inet cl r) := by
  obtain ⟨j, ans, rfl, htype, hv⟩ := hr
  rw [LoginServer.authResult]
  split
  · exact h.stays
  · next hgen =>
    rw [ne_eq, not_not] at hgen
    have hgoes := h.finishPrivilegedAuth hcl (j.result verify ans).purpose
      (j.result verify ans).success fun hsucc => by
        rw [Job.result, htype, if_pos rfl] at hsucc
        exact hearned j ans rfl hsucc hgen ((hv.conn cl hcl).2 hgen)
    dsimp only
    split
    · next cl' hcl' =>
      exact hgoes.trans (hgoes.sound.keepsConn hcl' (LoginConn.keeps_welcome inet _ cl'))
    · exact hgoes

/-- **One result**: whatever it does, what comes after it stays vouched for. -/
theorem Sound.applyResult (h : Sound inet verify cfg es Op St srv) (now : Nat) {r : JobResult}
    (hr : r.type.isAuth = true → Answered inet verify cfg es srv r)
    (hearned : ∀ j ans cl, srv.clients r.connId = some cl → r = j.result verify ans →
      verify j.secret j.hash = true → j.gen = cl.authGen →
      Checked inet verify cfg es j ans cl.pendingAccount →
      Earned Op St j.connId cl.pendingAccount j.purpose) :
    Goes inet verify cfg es Op St srv (srv.applyResult inet now r) := by
  rw [LoginServer.applyResult]
  split
  · exact h.stays
  · next cl hcl =>
    have hid := (h.ids _ cl hcl).1
    cases htype : r.type with
    | rdns =>
      dsimp only
      split
      · exact h.stays
      · exact h.keepsConn hcl (LoginConn.Keeps.welcome inet srv (.of_eq rfl rfl rfl rfl rfl))
    | ident =>
      dsimp only
      split
      · exact h.stays
      · exact h.keepsConn hcl (LoginConn.Keeps.welcome inet srv (.of_eq rfl rfl rfl rfl rfl))
    | dnsbl =>
      dsimp only
      split
      · exact h.stays
      · have hk : LoginConn.Keeps cl { cl with dnsblPending := false } := .of_eq rfl rfl rfl rfl rfl
        split
        · exact h.keeps (keeps_dnsblHit hcl hid now hk _ _)
        · exact h.keepsConn hcl hk
    | sasl => exact h.authResult hcl (hr (by rw [htype]; rfl)) fun j ans => hearned j ans cl hcl
    | hash => exact h.authResult hcl (hr (by rw [htype]; rfl)) fun j ans => hearned j ans cl hcl

end Checks

/-! ## 7. Every run

`History` is what the states of a run have to do with each other: connections keep their numbers,
and a later state is later.  It is what shows that the connection of a check was there all the time:
it is there at the end, in the generation it had at the beginning, and generations only grow.
-/

section Runs

variable {cfg : LoginConfig} {es : List LoginStep} {Op : Nat → Text → Prop} {St : Bool → Prop}
  {c : Nat} {cl : LoginConn}

variable (inet verify cfg) in
/-- The states of a run come one after the other. -/
def History (es : List LoginStep) : Prop :=
  ∀ a b, a ++ b <+: es → Ids (run inet verify cfg a) ∧
    Later (run inet verify cfg a) (run inet verify cfg (a ++ b))

variable (inet verify cfg) in
/-- Who may be an operator after a step: who was one before, or who became one by it. -/
def Allowed (es : List LoginStep) (e : LoginStep) (c : Nat) (operName : Text) : Prop :=
  IsOper (run inet verify cfg es) c operName ∨ Granted inet verify cfg es c operName e

theorem run_concat (es : List LoginStep) (e : LoginStep) :
    run inet verify cfg (es ++ [e]) = (run inet verify cfg es).step inet verify e :=
  List.foldl_concat ..

/-- **The connection has stayed** if it is in the generation of the job in the end. -/
theorem Attempt.stays {es₁ es₂ : List LoginStep} {e : LoginStep} {j : Job} {account : Text}
    (hh : History inet verify cfg (es₁ ++ [e] ++ es₂)) (h : Attempt inet verify cfg es₁ e j account)
    (hl : Later (run inet verify cfg (es₁ ++ [e] ++ es₂)) srv)
    (hcl : srv.clients j.connId = some cl) (hgen : j.gen = cl.authGen) :
    Stays inet verify cfg (es₁ ++ [e]) es₂ j := by
  rintro es₃ ⟨es₄, rfl⟩
  obtain ⟨cl₁, hcl₁, hgen₁⟩ := h.begun
  rw [← run_concat] at hcl₁
  obtain ⟨hids, hlater₁⟩ := hh (es₁ ++ [e]) es₃ ⟨es₄, by rw [List.append_assoc _ es₃]⟩
  obtain ⟨-, hlater₂⟩ := hh (es₁ ++ [e] ++ es₃) es₄
    ⟨[], by rw [List.append_nil, List.append_assoc _ es₃]⟩
  rw [List.append_assoc _ es₃] at hlater₂
  have hknown := (hids _ _ hcl₁).2
  obtain ⟨cl₂, hcl₂, honward₂⟩ := (hlater₂.trans hl).before (hknown.trans hlater₁.next) hcl
  obtain ⟨cl₁', hcl₁', honward₁⟩ := hlater₁.before hknown hcl₂
  obtain rfl : cl₁ = cl₁' := Option.some.inj (hcl₁.symm.trans hcl₁')
  refine ⟨cl₂, hcl₂, Nat.le_antisymm ?_ ?_⟩
  · rw [hgen]
    exact honward₂.1
  · rw [← hgen₁]
    exact honward₁.1

/-- **What a result earns** is earned by the step that polls it. -/
theorem earned_of_checked (hh : History inet verify cfg es)
    (hl : Later (run inet verify cfg es) srv) (now : Nat) {j : Job} {ans : JobAnswer}
    (hcl : srv.clients j.connId = some cl) (hgen : j.gen = cl.authGen)
    (hverify : verify j.secret j.hash = true)
    (hpolled : j.result verify ans ∈ ((run inet verify cfg es).pool.poll 32).1) {account : Text}
    (hc : Checked inet verify cfg es j ans account) :
    Earned (Allowed inet verify cfg es (.drain now))
      (StopProved inet verify cfg (es ++ [.drain now])) j.connId account j.purpose := by
  obtain ⟨es₁, e, es₂, rfl, hattempt, hran⟩ := hc
  have hstays := hattempt.stays hh hl hcl hgen
  have hconfirmed : Confirmed inet verify cfg (es₁ ++ [e] ++ es₂) j account :=
    ⟨es₁, e, es₂, ans, rfl, hattempt, hran, hstays, hverify, hpolled⟩
  have hasked := hattempt.asked
  rw [AskedBy] at hasked
  cases hpurpose : j.purpose with
  | oper =>
    rw [hpurpose] at hasked
    obtain ⟨-, -, -, -, -, -, op, -, -, -, -, -, rfl⟩ := hasked
    refine .inr (.checked now j rfl hpurpose ?_)
    rw [clip_clip]
    exact hconfirmed
  | die => exact ⟨_, .drain now, [], rfl, .checked now j account hpurpose hconfirmed⟩
  | restart => exact ⟨_, .drain now, [], rfl, .checked now j account hpurpose hconfirmed⟩

/-- **A batch of results.**  The induction is on the batch: each result is applied in a state that
is later than the one the batch was polled in. -/
theorem Sound.applyResults {rs : List JobResult} (now : Nat) {srv₀ : LoginServer}
    (h : Sound inet verify cfg es Op St srv) (hl : Later srv₀ srv)
    (hrs : ∀ r ∈ rs, r.type.isAuth = true → Answered inet verify cfg es srv r)
    (hearned : ∀ srv, Later srv₀ srv → ∀ j ans cl, j.result verify ans ∈ rs →
      srv.clients j.connId = some cl → verify j.secret j.hash = true → j.gen = cl.authGen →
      Checked inet verify cfg es j ans cl.pendingAccount →
      Earned Op St j.connId cl.pendingAccount j.purpose) :
    Goes inet verify cfg es Op St srv
      (rs.foldl (fun srv r => srv.applyResult inet now r) srv) := by
  induction rs generalizing srv with
  | nil => exact h.stays
  | cons r rs ih =>
    have hgoes := h.applyResult now (hrs r List.mem_cons_self) fun j ans cl hcl hr hv hgen hc => by
      subst hr
      exact hearned srv hl j ans cl List.mem_cons_self hcl hv hgen hc
    refine hgoes.trans (ih hgoes.sound (hl.trans hgoes.later) (fun r' hr' hauth => ?_) ?_)
    · exact (hrs r' (List.mem_cons_of_mem _ hr') hauth).later hgoes.later
    · exact fun srv hsrv j ans cl hmem => hearned srv hsrv j ans cl (List.mem_cons_of_mem _ hmem)

theorem Sound.drain (hh : History inet verify cfg es) (now : Nat)
    (h : Sound inet verify cfg es (Allowed inet verify cfg es (.drain now))
      (StopProved inet verify cfg (es ++ [.drain now])) (run inet verify cfg es)) :
    Goes inet verify cfg es (Allowed inet verify cfg es (.drain now))
      (StopProved inet verify cfg (es ++ [.drain now])) (run inet verify cfg es)
      ((run inet verify cfg es).drainWorkerResults inet now) := by
  have hk : Keeps (run inet verify cfg es)
      { run inet verify cfg es with pool := ((run inet verify cfg es).pool.poll 32).2 } := by
    refine Keeps.pool (fun j hj => .inl hj) fun r hr => ?_
    rw [Pool.mem_answers] at hr ⊢
    exact hr.imp id List.mem_of_mem_drop
  have hpolled := h.keeps hk
  refine hpolled.trans (hpolled.sound.applyResults now hpolled.later (fun r hr hauth => ?_) ?_)
  · have hring := List.mem_of_mem_take hr
    exact (h.answers r (Pool.mem_answers.mpr (.inr hring)) hauth).later hpolled.later
  · exact fun srv hsrv j ans cl hmem hcl hv hgen hc =>
      earned_of_checked hh hsrv now hcl hgen hv hmem hc

/-- A worker comes to an answer: the job was asked for, and now it is checked. -/
theorem Sound.finish (h : Sound inet verify cfg es Op St (run inet verify cfg es)) {i : Nat}
    {ans : JobAnswer} {j : Job} {p : Pool}
    (hfinish : (run inet verify cfg es).pool.finish verify i ans = some (j, p)) :
    Goes inet verify cfg (es ++ [.finish i ans]) Op St (run inet verify cfg es)
      { run inet verify cfg es with pool := p } := by
  obtain ⟨hj, rfl⟩ := Pool.finish_some hfinish
  have hrunning : j ∈ (run inet verify cfg es).pool.jobs :=
    Pool.mem_jobs.mpr (.inr (.inr (List.mem_of_getElem? hj)))
  have hs := h.snoc (.finish i ans)
  refine ⟨{ hs with jobs := fun k hk hauth => ?_, answers := fun r hr hauth => ?_ }, .of_eq rfl rfl⟩
  · have hmem : k ∈ (run inet verify cfg es).pool.jobs := by
      rw [Pool.mem_jobs] at hk ⊢
      exact hk.imp id (Or.imp id List.mem_of_mem_eraseIdx)
    obtain ⟨htype, hv⟩ := hs.jobs k hmem hauth
    exact ⟨htype, hv.later (.of_eq rfl rfl)⟩
  · rw [Pool.mem_answers] at hr
    rcases hr with ⟨x, hx, rfl⟩ | hr
    · rcases List.mem_append.mp hx with hx | hx
      · exact (hs.answers _ (Pool.mem_answers.mpr (.inl ⟨x, hx, rfl⟩)) hauth).later (.of_eq rfl rfl)
      · rw [List.mem_singleton.mp hx] at hauth ⊢
        obtain ⟨htype, hv⟩ := h.jobs j hrunning hauth
        refine ⟨j, ans, rfl, htype, (hv.imp fun a ha => ?_).later (.of_eq rfl rfl)⟩
        exact ha.checked hj ans
    · exact (hs.answers r (Pool.mem_answers.mpr (.inr hr)) hauth).later (.of_eq rfl rfl)

theorem Sound.onConn (h : Sound inet verify cfg es Op St srv) {f : LoginConn → LoginServer}
    (hf : ∀ cl, srv.clients c = some cl → srv.onConn c f = f cl →
      Goes inet verify cfg es Op St srv (f cl)) :
    Goes inet verify cfg es Op St srv (srv.onConn c f) := by
  have heq := LoginServer.onConn.eq_def srv c f
  rw [heq]
  split
  · next cl hcl =>
    split
    · exact h.stays
    · next hreads =>
      rw [hcl] at heq
      exact hf cl hcl (heq.trans (if_neg hreads))
  · exact h.stays

theorem Sound.onUser (h : Sound inet verify cfg es Op St srv) {f : LoginConn → LoginServer}
    (hf : ∀ cl, srv.clients c = some cl → cl.registered = true → srv.onUser inet c f = f cl →
      Goes inet verify cfg es Op St srv (f cl)) :
    Goes inet verify cfg es Op St srv (srv.onUser inet c f) := by
  refine h.onConn fun cl hcl heq => ?_
  split
  · exact h.keepsConn hcl (LoginConn.keeps_reply cl _ _)
  · next hreg =>
    split
    · exact h.stays
    · next hshun =>
      rw [if_neg hreg, if_neg hshun] at heq
      exact hf cl hcl (Bool.eq_true_of_not_eq_false hreg) heq

theorem Sound.onOper (h : Sound inet verify cfg es Op St srv) {f : LoginConn → LoginServer}
    (hf : ∀ cl, srv.clients c = some cl → cl.registered = true → cl.oper = true →
      cl.operPrivs &&& OperPriv.die ≠ 0 → srv.onOper inet c f = f cl →
      Goes inet verify cfg es Op St srv (f cl)) :
    Goes inet verify cfg es Op St srv (srv.onOper inet c f) := by
  refine h.onUser fun cl hcl hreg heq => ?_
  split
  · exact h.keepsConn hcl (LoginConn.keeps_reply cl _ _)
  · next hpriv =>
    rw [if_neg hpriv] at heq
    rw [not_or, Bool.not_eq_false] at hpriv
    exact hf cl hcl hreg hpriv.1 hpriv.2 heq

theorem Sound.cmdOper (h : Sound inet verify cfg es Op St srv) (hcl : srv.clients c = some cl)
    (now : Nat) {name password : Text}
    (hasked : ∀ op p, srv.operBlock inet cl name = some op → op.passwordHash ≠ [] →
      srv.pool.submit (passwordJob cl .oper password op.passwordHash) = some p →
      srv.cmdOper inet now cl name password = srv.submitted (submitCheck now srv.pool
        { cl with pendingAccount := clip 64 op.name } .oper password op.passwordHash)
        "491".toList →
      Asked inet verify cfg es (passwordJob cl .oper password op.passwordHash) (clip 64 op.name))
    (hplain : ∀ op, srv.operBlock inet cl name = some op → op.passwordHash = [] →
      cryptoSecureStreq password op.password = true → Op c (clip 64 op.name)) :
    Goes inet verify cfg es Op St srv (srv.cmdOper inet now cl name password) := by
  have heq := LoginServer.cmdOper.eq_def inet srv now cl name password
  rw [heq]
  split
  · exact h.keepsConn hcl (LoginConn.keeps_reply cl _ _)
  · next hoper =>
    split
    · exact h.keepsConn hcl (LoginConn.keeps_reply cl _ _)
    · next hpending =>
      rw [if_neg hoper, if_neg hpending] at heq
      split
      · exact h.keepsConn hcl (LoginConn.keeps_reply cl _ _)
      · next op hop =>
        rw [hop] at heq
        split
        · next hhash =>
          refine h.submitted hcl _ now "491".toList fun p hsub => ?_
          exact hasked op p hop hhash hsub (heq.trans (if_pos hhash))
        · next hhash =>
          rw [ne_eq, not_not] at hhash
          cases hpw : cryptoSecureStreq password op.password with
          | false => exact h.keepsConn hcl (LoginConn.keeps_finishOper_false _ _ cl)
          | true => exact h.grant hcl _ (hplain op hop hhash hpw)

theorem Sound.cmdDieOrRestart (h : Sound inet verify cfg es Op St srv)
    (hcl : srv.clients c = some cl) (now : Nat) (isRestart : Bool) {hash plain given : Text}
    (hasked : ∀ p, hash ≠ [] →
      srv.pool.submit (passwordJob cl (.stop isRestart) given hash) = some p →
      srv.cmdDieOrRestart now cl isRestart hash plain given =
        srv.submitted (submitCheck now srv.pool cl (.stop isRestart) given hash) "464".toList →
      Asked inet verify cfg es (passwordJob cl (.stop isRestart) given hash) cl.pendingAccount)
    (hplain : hash = [] → checkExtraPassword plain given = true → St isRestart) :
    Goes inet verify cfg es Op St srv
      (srv.cmdDieOrRestart now cl isRestart hash plain given) := by
  have heq := LoginServer.cmdDieOrRestart.eq_def srv now cl isRestart hash plain given
  rw [heq]
  split
  · next hhash =>
    split
    · exact h.keepsConn hcl (LoginConn.keeps_reply cl _ _)
    · next hpending =>
      rw [if_pos hhash, if_neg hpending] at heq
      exact h.submitted hcl cl.pendingAccount now "464".toList fun p hsub =>
        hasked p hhash hsub heq
  · next hhash =>
    rw [ne_eq, not_not] at hhash
    exact h.finishDieOrRestart hcl isRestart _ (hplain hhash)

/-- **The step lemma**, from a state that a run has reached. -/
theorem Sound.step (h : Sound inet verify cfg es (IsOper (run inet verify cfg es))
      (StopProved inet verify cfg es) (run inet verify cfg es))
    (hh : History inet verify cfg es) (e : LoginStep) :
    Goes inet verify cfg (es ++ [e]) (Allowed inet verify cfg es e)
      (StopProved inet verify cfg (es ++ [e])) (run inet verify cfg es)
      ((run inet verify cfg es).step inet verify e) := by
  have hmore : Sound inet verify cfg es (Allowed inet verify cfg es e)
      (StopProved inet verify cfg (es ++ [e])) (run inet verify cfg es) :=
    h.imp (fun _ _ hoper => .inl hoper) fun _ hproved => hproved.snoc e
  have hs := hmore.snoc e
  have hset : ∀ {c : Nat} {cl cl' : LoginConn}, (run inet verify cfg es).clients c = some cl →
      LoginConn.Keeps cl cl' → Goes inet verify cfg (es ++ [e]) (Allowed inet verify cfg es e)
        (StopProved inet verify cfg (es ++ [e])) (run inet verify cfg es)
        ((run inet verify cfg es).setConn cl') := fun hcl hk => hs.keepsConn hcl hk
  cases e with
  | accept now ip port localPort looked =>
    exact hs.keeps (keeps_accept now ip port localPort looked)
  | nick c nick => exact hs.onConn fun cl hcl _ => hset hcl (LoginConn.keeps_nick inet _ nick cl)
  | user c param => exact hs.onConn fun cl hcl _ => hset hcl (LoginConn.keeps_user inet _ param cl)
  | capHold c req => exact hs.onConn fun cl hcl _ => hset hcl (LoginConn.keeps_capHold cl req)
  | capEnd c => exact hs.onConn fun cl hcl _ => hset hcl (LoginConn.keeps_capEnd inet _ cl)
  | pass c param => exact hs.onConn fun cl hcl _ => hset hcl (LoginConn.keeps_pass cl param)
  | address c given hostname classFull =>
    refine hs.onConn fun cl hcl _ => ?_
    split
    · exact hs.stays
    · exact hset hcl (LoginConn.keeps_address inet _ given hostname classFull cl)
  | oper c now name password =>
    refine hs.onUser fun cl hcl hreg hstep => hs.cmdOper hcl now
      (fun op p hop hhash hsub hcmd => ?_) fun op hop hhash hpw => ?_
    · refine ⟨es, .oper c now name password, [], (List.append_nil _).symm,
        Attempt.of_submitted hsub (hstep.trans hcmd) ?_⟩
      exact ⟨c, now, name, password, rfl, cl, op, hcl, hreg, hop, hhash, rfl, rfl⟩
    · exact .inr (.plain now name password cl op hcl hreg hop hhash hpw rfl)
  | die c now given =>
    refine hs.onOper fun cl hcl hreg hoper hpriv hstep => hs.cmdDieOrRestart hcl now false
      (fun p hhash hsub hcmd => ?_) fun hhash hpw => ?_
    · refine ⟨es, .die c now given, [], (List.append_nil _).symm,
        Attempt.of_submitted hsub (hstep.trans hcmd) ?_⟩
      exact ⟨c, now, given, rfl, cl, hcl, hreg, hoper, hpriv, hhash, rfl⟩
    · exact ⟨es, .die c now given, [], rfl,
        @Stopped.plain inet verify cfg es false c now given cl hcl hreg hoper hpriv hhash hpw⟩
  | restart c now given =>
    refine hs.onOper fun cl hcl hreg hoper hpriv hstep => hs.cmdDieOrRestart hcl now true
      (fun p hhash hsub hcmd => ?_) fun hhash hpw => ?_
    · refine ⟨es, .restart c now given, [], (List.append_nil _).symm,
        Attempt.of_submitted hsub (hstep.trans hcmd) ?_⟩
      exact ⟨c, now, given, rfl, cl, hcl, hreg, hoper, hpriv, hhash, rfl⟩
    · exact ⟨es, .restart c now given, [], rfl,
        @Stopped.plain inet verify cfg es true c now given cl hcl hreg hoper hpriv hhash hpw⟩
  | deop c =>
    refine hs.onUser fun cl hcl _ _ => hset hcl ?_
    split
    · exact ⟨rfl, .refl cl, fun ho => Bool.noConfusion ho⟩
    · exact .refl cl
  | sasl c on => exact hs.onConn fun cl hcl _ => hset hcl (.of_eq rfl rfl rfl rfl rfl)
  | passDone c success =>
    rw [LoginServer.step]
    split
    · next cl hcl => exact hset hcl (LoginConn.Keeps.welcome inet _ (.of_eq rfl rfl rfl rfl rfl))
    · exact hs.stays
  | quit c reason =>
    rw [LoginServer.step]
    split
    · next cl hcl => exact hset hcl (LoginConn.keeps_quit cl reason)
    · exact hs.stays
  | remove c => exact hs.keeps (keeps_remove c)
  | take =>
    rw [LoginServer.step]
    split
    · next htake => exact hs.keeps (keeps_take htake)
    · exact hs.stays
  | begin i =>
    rw [LoginServer.step]
    split
    · next hbegin => exact hs.keeps (keeps_begin hbegin)
    · exact hs.stays
  | finish i ans =>
    rw [LoginServer.step]
    split
    · next hfinish => exact hmore.finish hfinish
    · exact hs.stays
  | push i =>
    rw [LoginServer.step]
    split
    · next hpush => exact hs.keeps (keeps_push hpush)
    · exact hs.stays
  | drain now =>
    have hdrain := Sound.drain hh now hmore
    exact ⟨hdrain.sound.snoc _, hdrain.later⟩
  | tick now => exact hs.keeps (keeps_tick now)
  | config | lines | services => exact hs.keeps { Keeps.refl _ with }

theorem History.snoc (hh : History inet verify cfg es) {e : LoginStep}
    (hids : Ids (run inet verify cfg (es ++ [e])))
    (hl : Later (run inet verify cfg es) (run inet verify cfg (es ++ [e]))) :
    History inet verify cfg (es ++ [e]) := by
  intro a b hab
  rcases List.prefix_concat_iff.mp hab with hab | hab
  · rcases List.eq_nil_or_concat b with rfl | ⟨b', x, rfl⟩
    · rw [List.append_nil] at hab ⊢
      rw [hab]
      exact ⟨hids, .refl _⟩
    · rw [List.concat_eq_append, ← List.append_assoc] at hab ⊢
      obtain ⟨rfl, -⟩ := List.append_inj' hab rfl
      rw [hab]
      obtain ⟨hids', hl'⟩ := hh a b' (List.prefix_refl _)
      exact ⟨hids', hl'.trans hl⟩
  · exact hh a b hab

variable (inet verify) in
/-- **The run lemma.** -/
theorem sound_run (es : List LoginStep) :
    Sound inet verify cfg es (IsOper (run inet verify cfg es)) (StopProved inet verify cfg es)
      (run inet verify cfg es) ∧ History inet verify cfg es := by
  induction es using List.reverseRecOn with
  | nil =>
    have hids : Ids (run inet verify cfg []) := fun c cl h => nomatch h
    refine ⟨⟨hids, fun _ h => absurd h List.not_mem_nil, fun _ h => absurd h List.not_mem_nil,
      fun _ _ h => (nomatch h), fun h => (nomatch h), fun h => (nomatch h)⟩, fun a b hab => ?_⟩
    obtain ⟨rfl, rfl⟩ := List.append_eq_nil_iff.mp (List.prefix_nil.mp hab)
    exact ⟨hids, .refl _⟩
  | append_singleton es e ih =>
    obtain ⟨hs, hl⟩ := ih.1.step ih.2 e
    rw [← run_concat] at hs hl
    exact ⟨{ hs with opers := fun c cl hcl ho => ⟨cl, hcl, ho, rfl⟩ }, ih.2.snoc hs.ids hl⟩

variable (inet verify cfg) in
/-- **Operators have proved who they are.**  Whoever is an operator after a run became one at some
step of it and has been one under that name since.  The step is an OPER of a registered user that
named a block admitting the user, with the block's password in the clear, or it polled the answer
to such an OPER: of that very job, which a worker had run and found right, while the connection was
there and began no other check. -/
theorem opers_proved (es : List LoginStep) {c : Nat} {cl : LoginConn}
    (hcl : (run inet verify cfg es).clients c = some cl) (ho : cl.oper = true) :
    OperProved inet verify cfg es c cl.operName := by
  have hoper : IsOper (run inet verify cfg es) c cl.operName := ⟨cl, hcl, ho, rfl⟩
  generalize cl.operName = operName at hoper
  induction es using List.reverseRecOn generalizing cl with
  | nil => cases hcl
  | append_singleton es e ih =>
    by_cases hold : IsOper (run inet verify cfg es) c operName
    · obtain ⟨cl₀, hcl₀, ho₀, -⟩ := id hold
      obtain ⟨es₁, e', es₂, rfl, hout, hgranted, hsince⟩ := ih hcl₀ ho₀ hold
      refine ⟨es₁, e', es₂ ++ [e], by simp, hout, hgranted, fun es₃ hes₃ => ?_⟩
      rcases List.prefix_concat_iff.mp hes₃ with rfl | hes₃
      · rw [← List.cons_append, ← List.append_assoc]
        exact hoper
      · exact hsince es₃ hes₃
    · obtain ⟨hs, hh⟩ := sound_run inet verify es
      obtain ⟨hs', -⟩ := hs.step hh e
      rw [← run_concat] at hs'
      obtain ⟨cl', hcl', ho', rfl⟩ := id hoper
      have hgranted := (hs'.opers c cl' hcl' ho').resolve_left hold
      refine ⟨es, e, [], rfl, hold, hgranted, fun es₃ hes₃ => ?_⟩
      rw [List.prefix_nil.mp hes₃]
      exact hoper

variable (inet verify cfg) in
/-- **Only an operator who gave the password stops or restarts the server.**  Where a shutdown has
been requested, some step of the run requested it: a DIE or RESTART of a registered operator with
the privilege, with the right password in the clear or none configured, or the answer to one, of
that very job; and where a restart has been requested, the same for RESTART. -/
theorem stop_proved (es : List LoginStep) :
    ((run inet verify cfg es).shutdownRequested = true →
      ∃ restart, StopProved inet verify cfg es restart) ∧
    ((run inet verify cfg es).restartRequested = true → StopProved inet verify cfg es true) :=
  ⟨(sound_run inet verify es).1.stop, (sound_run inet verify es).1.restart⟩

end Runs

/-! ## 8. A login -/

/-- A hash that only tells its password. -/
def demoVerify (secret hash : Text) : Bool := decide (hash = '$' :: secret)

def demoConfig : LoginConfig where
  operators := [⟨"root".toList, [], "$sesame".toList, ["*@10.*".toList], 0⟩]
  dieHash := []
  diePassword := []
  restartHash := []
  restartPassword := []
  blacklists := []
  blAction := .reject
  blBanDuration := 0
  rdnsEnabled := true
  identEnabled := false
  maxNickLength := 30

/-- A user whose host is not found registers and opers up: with a wrong password first, whose check
takes too long, and then with the right one.  Two workers run the checks at once, the second check
ends first, and the late result of the first is polled before it. -/
def demoLogin : List LoginStep :=
  [.accept 0 "10.0.0.1".toList 1024 6667 false, .nick 1 "alice".toList, .user 1 "al".toList, .take,
    .begin 0, .finish 0 ⟨false, [], []⟩, .push 0, .drain 1, .oper 1 2 "ROOT".toList "open".toList,
    .take, .begin 0, .tick 40, .oper 1 41 "ROOT".toList "sesame".toList, .take, .begin 0,
    .finish 1 ⟨false, [], []⟩, .finish 0 ⟨false, [], []⟩, .push 1, .push 0, .drain 42]

theorem demoLogin_isSome :
    ((run namesOnly demoVerify demoConfig demoLogin).clients 1).isSome = true := by
  decide +kernel

theorem opers_proved_demo :
    OperProved namesOnly demoVerify demoConfig demoLogin 1 "root".toList := by
  have hproved := opers_proved namesOnly demoVerify demoConfig demoLogin
    (Option.some_get demoLogin_isSome).symm (by decide +kernel)
  have hname : (((run namesOnly demoVerify demoConfig demoLogin).clients 1).get
      demoLogin_isSome).operName = "root".toList := by decide +kernel
  rwa [hname] at hproved

end LoginServer

end SekurIRCd
