/-
# Connections between accept and the network

A connection that is accepted has lookups in flight (reverse DNS, ident, blocklists), and becomes a
user once it has a nick and a user name, has ended its capability negotiation, waits for nothing
and no K-line matches it (`cmd_send_welcome_if_ready`).  Its user may then prove to be an operator
(`cmd_oper`) and, as one, stop the server (`cmd_die`, `cmd_restart`), with passwords that a worker
checks.

The answers of the workers come back in any order, late, or never; in the meantime the connection
goes on, or away.  `LoginStep` has everything that can happen, and a run is any sequence of it.  The
pool is the one of `Accept/Worker`, so that a step of a worker stands in the run beside the steps of
the event loop, and what a result means is decided by the state that it finds.

This module has no theorem.  `Accept/Privilege` proves who becomes an operator and who stops the
server, and `Accept/Register` who becomes a user.

The displayed host and its cloak, user modes other than `+o`, notices to operators and logs are
left out.  The classes of connections are in `Accept/Admission`; what `net_assign_class` says comes
with the step here.
-/
import SekurIRCd.Accept.Worker
import SekurIRCd.Dispatch
import SekurIRCd.ShunCache

namespace SekurIRCd

open CLib

/-! ## 1. Configuration and state

A connection has the fields that its login reads, and `sent` for what it was told.  Its number is
never used again: results find the connection by it, or find it gone.
-/

/-- `cfg_operator_t`, without its modes. The password is in the clear or hashed, and a hash goes
before it when there is one. -/
structure Operator where
  name : Text
  password : Text
  passwordHash : Text
  hosts : List Text
  privs : Nat

/-- `cfg_blacklist_t`: a zone, its replies and what they mean. Without a list of replies any of
them counts. -/
structure Blacklist where
  zone : Text
  replies : List (Nat × Text)
  bitmask : Bool
  banUnknown : Bool
  reason : Text

/-- `bl_action`. -/
inductive BlAction
  | reject | kline | zline
deriving DecidableEq

/-- The configuration, as far as logins read it. -/
structure LoginConfig where
  operators : List Operator
  dieHash : Text
  diePassword : Text
  restartHash : Text
  restartPassword : Text
  blacklists : List Blacklist
  blAction : BlAction
  blBanDuration : Nat
  rdnsEnabled : Bool
  identEnabled : Bool
  maxNickLength : Nat

/-- `client_t`, as far as logins go; `sent` holds numerics and texts, the oldest first. The three
`pending` fields are the lookups that it waits for, and `authGen` is the generation of its last
password check. -/
structure LoginConn where
  connId : Nat
  ip : Text
  nick : Text
  user : Text
  realhost : Text
  gotNick : Bool
  gotUser : Bool
  capNegotiating : Bool
  registered : Bool
  quitting : Bool
  quitReason : Text
  rdnsPending : Bool
  identPending : Bool
  dnsblPending : Bool
  identConfirmed : Bool
  webirc : Bool
  /-- What `PASS` has stored. -/
  pass : Text
  /-- `account` or `sasl_mech` is set. -/
  sasl : Bool
  authPending : Bool
  authStarted : Nat
  authGen : Nat
  pendingAccount : Text
  /-- `UMODE_O`. -/
  oper : Bool
  operName : Text
  operPrivs : Nat
  operFails : Nat
  signonTime : Nat
  sent : List (Text × Text)

/-- The server, as far as logins go. Connections are found by their number (`by_conn_id`), and no
number is given out twice, so an answer for one that is gone finds none. -/
structure LoginServer where
  cfg : LoginConfig
  lines : List KLine
  /-- `services_agent`. -/
  services : Bool
  /-- The addresses that `auth_fail_throttled` holds back. -/
  throttled : List Text
  nextConnId : Nat
  clients : Nat → Option LoginConn
  pool : Pool
  shutdownRequested : Bool
  restartRequested : Bool

namespace LoginConn

/-- `client_reply`. -/
def reply (cl : LoginConn) (numeric text : Text) : LoginConn :=
  { cl with sent := cl.sent ++ [(numeric, text)] }

/-- `notice_self`. -/
def notice (cl : LoginConn) (text : Text) : LoginConn := cl.reply "NOTICE".toList text

/-- `client_mark_quit`, with the reason. The connection is still there until it is removed, but
nothing is read from it any more. -/
def quit (cl : LoginConn) (reason : Text) : LoginConn :=
  { cl with quitReason := clip 256 reason, quitting := true }

/-- What lines are matched against. The nick is not part of it. -/
def subject (cl : LoginConn) : LineSubject := ⟨cl.ip, cl.user, cl.realhost, cl.identConfirmed⟩

end LoginConn

/-! ## 2. Becoming a user

`cmd_send_welcome_if_ready` is tried after every change that may have been the last one missing.
Each of the commands below is one such change, and so are the answers in section 4.
-/

namespace LoginConn

/-- The account and the password of a PASS; the account is the nick where it names none. A password
may have colons in it behind the first. -/
def passParts (nick pass : Text) : Text × Text :=
  if pass.contains ':' then (pass.takeWhile (· != ':'), (pass.dropWhile (· != ':')).tail)
  else (nick, pass)

/-- `cmd_pass_login`, and whether the login is now pending. The password is forgotten in any case,
so it is tried once. -/
def cmdPassLogin (srv : LoginServer) (cl : LoginConn) : LoginConn × Bool :=
  if cl.pass = [] then (cl, false)
  else
    let pass := clip 256 cl.pass
    let cl := { cl with pass := [] }
    if cl.sasl then (cl, false)
    else if srv.services = false ∨ srv.throttled.contains cl.ip then
      (cl.notice ("PASS login unavailable right now (account services offline, or too many " ++
        "attempts) -- continuing unidentified").toList, false)
    else
      let parts := passParts cl.nick pass
      if 2 * parts.1.length + parts.2.length + 2 < 290 ∧ parts.1 ≠ [] ∧ parts.2 ≠ [] then
        ({ cl with authPending := true, sasl := true }, true)
      else (cl.notice "PASS login refused (malformed) -- continuing unidentified".toList, false)

section Welcome

variable (inet : IpText) (srv : LoginServer)

/-- `cmd_send_welcome_if_ready`. Whoever is not ready is left alone; whoever is ready is matched
against the lines and told to go, or welcomed. -/
def cmdSendWelcomeIfReady (cl : LoginConn) : LoginConn :=
  if cl.registered ∨ cl.gotNick = false ∨ cl.gotUser = false ∨ cl.capNegotiating then cl
  else if cl.rdnsPending ∨ cl.identPending ∨ cl.authPending then cl
  else
    let (cl, pending) := cmdPassLogin srv cl
    if pending then cl
    else
      match serverKlineMatch inet srv.lines cl.subject with
      | some reason => cl.quit reason
      | none => { cl with registered := true }

/-- `cmd_nick`, before registration, with a nick that is free and valid. It may be what the welcome
was still waiting for. -/
def connNick (nick : Text) (cl : LoginConn) : LoginConn :=
  if cl.registered then cl
  else cmdSendWelcomeIfReady inet srv { cl with nick := clip 64 nick, gotNick := true }

/-- `cmd_user`. An answer of the ident server is not overwritten by what the client says. -/
def cmdUser (param : Text) (cl : LoginConn) : LoginConn :=
  if cl.registered then cl.reply "462".toList "You may not reregister".toList
  else
    let user := ShunClient.userName srv.cfg.maxNickLength param
    cmdSendWelcomeIfReady inet srv
      { cl with user := if cl.identConfirmed then cl.user else user, gotUser := true }

/-- `cmd_cap`: LS and LIST hold the registration, REQ does before it, and END ends it. A user is
not held again. -/
def capHold (req : Bool) (cl : LoginConn) : LoginConn :=
  if req ∧ cl.registered then cl else { cl with capNegotiating := true }

def capEnd (cl : LoginConn) : LoginConn :=
  cmdSendWelcomeIfReady inet srv { cl with capNegotiating := false }

/-- `cmd_pass`. -/
def cmdPass (param : Text) (cl : LoginConn) : LoginConn :=
  if cl.registered then cl else { cl with pass := param }

/-- `client_apply_real_address`.  A connection whose class is full is told to go before the lookups
of its old address are called off, and they may still answer. -/
def clientApplyRealAddress (given : Text) (hostname : Option Text) (classFull : Bool)
    (cl : LoginConn) : LoginConn :=
  match ircIpNormalize inet given 64 with
  | none => cl.quit "Invalid forwarded address".toList
  | some ip =>
    let host := (hostname.filter fun h => ircValidHost h && decide (h ≠ ip)).getD ip
    let cl := { cl with ip := ip, realhost := clip 256 host }
    if classFull then cl.quit "Too many connections in your class".toList
    else
      let cl := { cl with
        webirc := true, rdnsPending := false, identPending := false, dnsblPending := false }
      match serverKlineMatch inet srv.lines ⟨cl.ip, [], cl.realhost, false⟩ with
      | some reason => cl.quit reason
      | none => cl

end Welcome

end LoginConn

/-! ## 3. Operators

A password that is configured in the clear is compared at once.  One that is hashed goes to a worker
with the number of the connection and a new generation, and the command ends there;
`cmd_finish_privileged_auth` goes on when the answer is back.
-/

def maxOperFails : Nat := 3

/-- `finish_oper`. A wrong password is counted, and too many of them end the connection; a right
one gives the name of the block and its privileges, or all of them where no block of that name sets
any. -/
def finishOper (cfg : LoginConfig) (opName : Text) (pwOk : Bool) (cl : LoginConn) : LoginConn :=
  if pwOk = false then
    let cl := { cl with operFails := cl.operFails + 1 }
    if cl.operFails ≥ maxOperFails then cl.quit "Too many failed OPER attempts".toList
    else cl.reply "464".toList "Password incorrect".toList
  else
    let privs := cfg.operators.foldl (fun privs op =>
      if op.name = opName ∧ op.privs ≠ 0 then op.privs else privs) OperPriv.all
    let cl := { cl with
      operFails := 0, operName := clip 64 opName, operPrivs := privs, oper := true }
    cl.reply "381".toList "You are now an IRC operator".toList

/-- `crypto_secure_streq`. -/
def cryptoSecureStreq (a b : Text) : Bool := decide (a.length < 256 ∧ b.length < 256 ∧ a = b)

/-- The job of `cmd_oper` and of `submit_privileged_check`. It carries the attempt's number, by
which its answer will be known. -/
def passwordJob (cl : LoginConn) (purpose : AuthPurpose) (given hash : Text) : Job where
  type := .sasl
  connId := cl.connId
  ip := []
  remotePort := 0
  localPort := 0
  zones := []
  secret := clip 256 given
  hash := clip 256 hash
  purpose := purpose
  gen := cl.authGen + 1

/-- A password is on its way to a worker; `none` when the queue is full. The attempt gets its
number before it is known whether the queue takes it. -/
def submitCheck (now : Nat) (pool : Pool) (cl : LoginConn) (purpose : AuthPurpose)
    (given hash : Text) : LoginConn × Option Pool :=
  let cl' := { cl with authPending := true, authStarted := now, authGen := cl.authGen + 1 }
  match pool.submit (passwordJob cl purpose given hash) with
  | some pool => (cl', some pool)
  | none => ({ cl' with authPending := false }, none)

namespace LoginServer

variable (inet : IpText) (srv : LoginServer)

def setConn (cl : LoginConn) : LoginServer :=
  { srv with clients := fun c => if c = cl.connId then some cl else srv.clients c }

/-- The client and the pool after a password was sent to a worker, or refused with a reply. -/
def submitted (r : LoginConn × Option Pool) (numeric : Text) : LoginServer :=
  match r with
  | (cl, some pool) => { srv.setConn cl with pool := pool }
  | (cl, none) => srv.setConn (cl.reply numeric "Server is busy -- try again shortly".toList)

/-- The block that `OPER name` is about, and whether its hosts admit the client. Only the first
block of that name is looked at. -/
def operBlock (cl : LoginConn) (name : Text) : Option Operator :=
  (srv.cfg.operators.find? fun op => caseEq op.name name).filter fun op =>
    op.hosts.any (ircHostMaskMatch inet cl.user cl.ip)

/-- `cmd_oper`. A password in the clear is compared at once; a hashed one goes to a worker, and the
client stays what it is until the answer comes. -/
def cmdOper (now : Nat) (cl : LoginConn) (name password : Text) : LoginServer :=
  if cl.oper then srv.setConn (cl.notice "You are already an IRC operator".toList)
  else if cl.authPending then
    srv.setConn (cl.reply "491".toList
      "Another login is already in progress -- try again shortly".toList)
  else
    match srv.operBlock inet cl name with
    | none => srv.setConn (cl.reply "491".toList "No O-lines for your host".toList)
    | some op =>
      if op.passwordHash ≠ [] then
        let cl := { cl with pendingAccount := clip 64 op.name }
        srv.submitted (submitCheck now srv.pool cl .oper password op.passwordHash) "491".toList
      else
        srv.setConn (finishOper srv.cfg op.name (cryptoSecureStreq password op.password) cl)

/-- `check_extra_password`. Without a password in the configuration any will do. -/
def checkExtraPassword (plain given : Text) : Bool :=
  if plain ≠ [] then cryptoSecureStreq plain given else true

/-- `finish_die_or_restart`. Nothing stops here; the main loop looks at the two flags. -/
def finishDieOrRestart (cl : LoginConn) (isRestart pwOk : Bool) : LoginServer :=
  if pwOk = false then srv.setConn (cl.reply "464".toList "Password incorrect".toList)
  else
    { srv with
      restartRequested := if isRestart then true else srv.restartRequested
      shutdownRequested := true }

/-- `cmd_die` and `cmd_restart`. They differ in the passwords of the configuration and in the flag
that is set. -/
def cmdDieOrRestart (now : Nat) (cl : LoginConn) (isRestart : Bool) (hash plain given : Text) :
    LoginServer :=
  if hash ≠ [] then
    if cl.authPending then
      srv.setConn (cl.reply "464".toList
        "Another login is already in progress -- try again shortly".toList)
    else
      srv.submitted (submitCheck now srv.pool cl (if isRestart then .restart else .die) given hash)
        "464".toList
  else srv.finishDieOrRestart cl isRestart (checkExtraPassword plain given)

def cmdDie (now : Nat) (cl : LoginConn) (given : Text) : LoginServer :=
  srv.cmdDieOrRestart now cl false srv.cfg.dieHash srv.cfg.diePassword given

def cmdRestart (now : Nat) (cl : LoginConn) (given : Text) : LoginServer :=
  srv.cmdDieOrRestart now cl true srv.cfg.restartHash srv.cfg.restartPassword given

/-- `cmd_finish_privileged_auth`. The operator block is looked up again, by the name that was kept
in the connection, as it may be gone by now. -/
def cmdFinishPrivilegedAuth (cl : LoginConn) (purpose : AuthPurpose) (success : Bool) :
    LoginServer :=
  let cl := { cl with authPending := false }
  let srv := srv.setConn cl
  match purpose with
  | .oper => srv.setConn (finishOper srv.cfg cl.pendingAccount success cl)
  | .die => srv.finishDieOrRestart cl false success
  | .restart => srv.finishDieOrRestart cl true success

end LoginServer

/-! ## 4. Answers of the workers, and time

A lookup that has answered may rename the connection that waits for it, and no other.  A password
check counts only while its generation is the present one: a later check and the rescue of `tick`
both start a new generation.
-/

/-- The reply of a zone that counts (`protection_bl_match`). -/
def blReply (z : Blacklist) (code : Int) : Option Text :=
  let plain := "reply ".toList ++ (Nat.repr code.toNat).toList
  if code < 0 then none
  else if z.replies = [] then some plain
  else
    match z.replies.find? fun r =>
        if z.bitmask then code.toNat &&& r.1 != 0 else code.toNat == r.1 with
    | some r => some r.2
    | none => if z.banUnknown then some plain else none

/-- `protection_bl_match`: the first zone that counts, in the order of the configuration. The codes
come in the same order. -/
def protectionBlMatch (zones : List Blacklist) (codes : List Int) : Option (Blacklist × Text) :=
  (zones.zip codes).findSome? fun x => (blReply x.1 x.2).map fun reply => (x.1, reply)

/-- `protection_expand`. -/
def protectionExpand (ip t r : Text) : Text → Text
  | [] => []
  | [c] => [c]
  | c :: d :: rest =>
    if c = '%' ∧ d = 'i' then ip ++ protectionExpand ip t r rest
    else if c = '%' ∧ d = 't' then t ++ protectionExpand ip t r rest
    else if c = '%' ∧ (d = 'r' ∨ d = 'p') then r ++ protectionExpand ip t r rest
    else if c = '%' ∧ d = '%' then '%' :: protectionExpand ip t r rest
    else c :: protectionExpand ip t r (d :: rest)

/-- The connection, as far as lines go. -/
def LoginConn.lineClient (cl : LoginConn) : LineClient :=
  ⟨cl.connId, true, cl.quitting, cl.quitReason, cl.subject⟩

namespace LoginServer

variable (inet : IpText) (srv : LoginServer)

/-- `server_kline_enforce`: whoever is hit is marked as quitting, but for the connection that is
being dealt with. -/
def enforce (mask : Text) (t : LineType) (reason : Text) (except : Nat) : LoginServer :=
  { srv with clients := fun c => (srv.clients c).map fun cl =>
      if enforced inet srv.lines mask t (some except) cl.lineClient then cl.quit reason else cl }

/-- What a blocklist that counts does to a connection and to others from its address. It rejects
the one, or bans the address for a while. -/
def dnsblHit (now : Nat) (cl : LoginConn) (z : Blacklist) (reply : Text) : LoginServer :=
  let reason := clip 350 (protectionExpand cl.ip z.zone reply z.reason)
  let rejects := decide (srv.cfg.blAction = .reject)
  let type := if srv.cfg.blAction = .kline then LineType.K else LineType.Z
  let banned := klineAdd now cl.ip reason "dnsbl".toList type srv.cfg.blBanDuration srv.lines
  let srv := if rejects then srv else { srv with lines := banned }
  let quit := clip 400 (if rejects then reason else "Z-Lined: ".toList ++ reason)
  (srv.enforce inet cl.ip .Z quit cl.connId).setConn (cl.quit reason)

/-- The answer to a password check, unless a later one has begun. It is told by the generation,
which every check and every rescue has made anew. -/
def authResult (cl : LoginConn) (r : JobResult) : LoginServer :=
  if r.gen ≠ cl.authGen then srv
  else
    let srv := srv.cmdFinishPrivilegedAuth cl r.purpose r.success
    match srv.clients cl.connId with
    | some cl => srv.setConn (cl.cmdSendWelcomeIfReady inet srv)
    | none => srv

/-- What `drain_worker_results` does with one result. A connection that has gone in the meantime is
not found by its number, and the result is dropped. -/
def applyResult (now : Nat) (r : JobResult) : LoginServer :=
  match srv.clients r.connId with
  | none => srv
  | some cl =>
    match r.type with
    | .rdns =>
      if cl.registered ∨ cl.rdnsPending = false then srv
      else
        let realhost := if r.success then clip 256 r.text else cl.realhost
        srv.setConn (LoginConn.cmdSendWelcomeIfReady inet srv
          { cl with rdnsPending := false, realhost := realhost })
    | .ident =>
      if cl.registered ∨ cl.identPending = false then srv
      else
        let user := if r.success then clip 64 r.text else cl.user
        srv.setConn (LoginConn.cmdSendWelcomeIfReady inet srv
          { cl with identPending := false, user := user
                    identConfirmed := cl.identConfirmed || r.success })
    | .dnsbl =>
      if cl.webirc then srv
      else
        let cl := { cl with dnsblPending := false }
        match (if r.success then protectionBlMatch srv.cfg.blacklists r.zoneCode else none) with
        | some (z, reply) => srv.dnsblHit inet now cl z reply
        | none => srv.setConn cl
    | .sasl | .hash => srv.authResult inet cl r

/-- One round of `drain_worker_results`. The results are applied in the order they came in, and
each finds the connections as the one before left them. -/
def drainWorkerResults (now : Nat) : LoginServer :=
  let r := srv.pool.poll 32
  r.1.foldl (fun srv r => srv.applyResult inet now r) { srv with pool := r.2 }

/-- The rescue of `tick` for a lookup that never finished. The connection goes on without it. -/
def rescueLookups (now : Nat) (cl : LoginConn) : LoginConn :=
  if (cl.rdnsPending ∨ cl.identPending ∨ cl.dnsblPending) ∧ now - cl.signonTime > 30 then
    LoginConn.cmdSendWelcomeIfReady inet srv
      { cl with rdnsPending := false, identPending := false, dnsblPending := false }
  else cl

/-- The rescue of `tick` for a password check: its late result must not count. The attempt's number
goes on, so that the answer finds another. -/
def rescueAuth (now : Nat) (cl : LoginConn) : LoginConn :=
  if cl.authPending ∧ now - cl.authStarted > 30 then
    { cl with authPending := false, authGen := cl.authGen + 1 }.notice
      "Your login timed out on the server side -- please try again.".toList
  else cl

/-- `tick`, for one connection: lookups, the password check, and the time there is to register. -/
def tickConn (now : Nat) (cl : LoginConn) : LoginConn :=
  if cl.quitting then cl
  else
    let cl := rescueAuth now (srv.rescueLookups inet now cl)
    if cl.registered = false ∧ now - cl.signonTime > 60 then cl.quit "Registration timeout".toList
    else cl

/-- `tick`. -/
def tick (now : Nat) : LoginServer :=
  { srv with clients := fun c => (srv.clients c).map (srv.tickConn inet now) }

/-! ## 5. Everything that can happen

The commands come through `onConn`, `onUser` and `onOper`, which are what `dispatch_inner` asks of a
connection before it runs a handler (`Dispatch`).
-/

/-- A lookup for a new connection. It carries no password and no attempt. -/
def lookupJob (connId : Nat) (ip : Text) (type : JobType) (zones : List Text)
    (remotePort localPort : Nat) : Job :=
  ⟨type, connId, ip, remotePort, localPort, zones, [], [], .oper, 0⟩

/-- `worker_submit`, and whether it took the job. What it did not take is not waited for. -/
def trySubmit (pool : Pool) (wanted : Bool) (j : Job) : Pool × Bool :=
  if wanted then
    match pool.submit j with
    | some pool => (pool, true)
    | none => (pool, false)
  else (pool, false)

/-- `accept_client`, for a connection that is let in. It waits for as many lookups as were taken. -/
def accept (now : Nat) (ip : Text) (port localPort : Nat) (looked : Bool) : LoginServer :=
  let connId := srv.nextConnId + 1
  let zones := (srv.cfg.blacklists.map Blacklist.zone).take 16
  let ip := clip 64 ip
  let (pool, dnsbl) := trySubmit srv.pool (looked && !srv.cfg.blacklists.isEmpty)
    (lookupJob connId ip .dnsbl zones 0 0)
  let (pool, rdns) := trySubmit pool srv.cfg.rdnsEnabled (lookupJob connId ip .rdns [] 0 0)
  let (pool, ident) := trySubmit pool srv.cfg.identEnabled
    (lookupJob connId ip .ident [] port localPort)
  { srv with nextConnId := connId, pool := pool }.setConn
    { connId := connId, ip := ip, nick := [], user := [], realhost := ip, gotNick := false
      gotUser := false, capNegotiating := false, registered := false, quitting := false
      quitReason := [], rdnsPending := rdns, identPending := ident, dnsblPending := dnsbl
      identConfirmed := false, webirc := false, pass := [], sasl := false, authPending := false
      authStarted := 0, authGen := 0, pendingAccount := [], oper := false, operName := []
      operPrivs := 0, operFails := 0, signonTime := now, sent := [] }

/-- `server_remove_client`. Jobs that wait are cancelled; one that runs goes on, and its answer
finds nobody. -/
def removeClient (c : Nat) : LoginServer :=
  { srv with
    pool := srv.pool.cancel c
    clients := fun c' => if c' = c then none else srv.clients c' }

/-- What a connection that is read from does. Nothing is read while a blocklist is asked, so none
of its commands come before the answer. -/
def onConn (c : Nat) (f : LoginConn → LoginServer) : LoginServer :=
  match srv.clients c with
  | some cl => if cl.quitting ∨ cl.dnsblPending then srv else f cl
  | none => srv

/-- `dispatch_inner`, for a command of registered users. A shunned user's command is dropped
without a reply. -/
def onUser (c : Nat) (f : LoginConn → LoginServer) : LoginServer :=
  srv.onConn c fun cl =>
    if cl.registered = false then
      srv.setConn (cl.reply "451".toList "You have not registered".toList)
    else if cl.oper = false ∧ shunnedBy inet srv.lines cl.subject then srv
    else f cl

/-- `dispatch_inner`, for DIE and RESTART: an operator with the privilege. The password comes after
this. -/
def onOper (c : Nat) (f : LoginConn → LoginServer) : LoginServer :=
  srv.onUser inet c fun cl =>
    if cl.oper = false ∨ cl.operPrivs &&& OperPriv.die = 0 then
      srv.setConn (cl.reply "481".toList "Permission Denied- You're not an IRC operator".toList)
    else f cl

end LoginServer

/-- Everything that can happen to a connection on its way to being a user, and to an operator
afterwards. What the workers do is a step of their pool and may come at any time. -/
inductive LoginStep
  | accept (now : Nat) (ip : Text) (port localPort : Nat) (looked : Bool)
  | nick (c : Nat) (nick : Text)
  | user (c : Nat) (param : Text)
  | capHold (c : Nat) (req : Bool)
  | capEnd (c : Nat)
  | pass (c : Nat) (param : Text)
  | address (c : Nat) (given : Text) (hostname : Option Text) (classFull : Bool)
  | oper (c : Nat) (now : Nat) (name password : Text)
  | die (c : Nat) (now : Nat) (given : Text)
  | restart (c : Nat) (now : Nat) (given : Text)
  /-- `MODE -o`. -/
  | deop (c : Nat)
  /-- A SASL exchange starts or ends. -/
  | sasl (c : Nat) (on : Bool)
  /-- `sasl_finish`, for a PASS login. -/
  | passDone (c : Nat) (success : Bool)
  | quit (c : Nat) (reason : Text)
  | remove (c : Nat)
  | take
  | begin (i : Nat)
  | finish (i : Nat) (ans : JobAnswer)
  | push (i : Nat)
  | drain (now : Nat)
  | tick (now : Nat)
  | config (cfg : LoginConfig)
  | lines (lines : List KLine)
  | services (on : Bool) (throttled : List Text)

namespace LoginServer

variable (inet : IpText) (verify : Text → Text → Bool)

def step (srv : LoginServer) : LoginStep → LoginServer
  | .accept now ip port localPort looked => srv.accept now ip port localPort looked
  | .nick c nick => srv.onConn c fun cl => srv.setConn (cl.connNick inet srv nick)
  | .user c param => srv.onConn c fun cl => srv.setConn (cl.cmdUser inet srv param)
  | .capHold c req => srv.onConn c fun cl => srv.setConn (cl.capHold req)
  | .capEnd c => srv.onConn c fun cl => srv.setConn (cl.capEnd inet srv)
  | .pass c param => srv.onConn c fun cl => srv.setConn (cl.cmdPass param)
  | .address c given hostname classFull => srv.onConn c fun cl =>
      if cl.registered then srv
      else srv.setConn (cl.clientApplyRealAddress inet srv given hostname classFull)
  | .oper c now name password => srv.onUser inet c fun cl => srv.cmdOper inet now cl name password
  | .die c now given => srv.onOper inet c fun cl => srv.cmdDie now cl given
  | .restart c now given => srv.onOper inet c fun cl => srv.cmdRestart now cl given
  | .deop c => srv.onUser inet c fun cl =>
      srv.setConn (if cl.oper then { cl with oper := false, operName := [], operPrivs := 0 } else cl)
  | .sasl c on => srv.onConn c fun cl => srv.setConn { cl with sasl := on }
  | .passDone c success =>
    match srv.clients c with
    | some cl =>
      srv.setConn (LoginConn.cmdSendWelcomeIfReady inet srv
        { cl with authPending := false, sasl := success })
    | none => srv
  | .quit c reason =>
    match srv.clients c with
    | some cl => srv.setConn (cl.quit reason)
    | none => srv
  | .remove c => srv.removeClient c
  | .take =>
    match srv.pool.take with
    | some (_, pool) => { srv with pool := pool }
    | none => srv
  | .begin i =>
    match srv.pool.begin i with
    | some pool => { srv with pool := pool }
    | none => srv
  | .finish i ans =>
    match srv.pool.finish verify i ans with
    | some (_, pool) => { srv with pool := pool }
    | none => srv
  | .push i =>
    match srv.pool.push i with
    | some (_, pool) => { srv with pool := pool }
    | none => srv
  | .drain now => srv.drainWorkerResults inet now
  | .tick now => srv.tick inet now
  | .config cfg => { srv with cfg := cfg }
  | .lines lines => { srv with lines := lines }
  | .services on throttled => { srv with services := on, throttled := throttled }

/-- A server that has just started. It has no connections and no lines, and the pool is empty. -/
def boot (cfg : LoginConfig) : LoginServer where
  cfg := cfg
  lines := []
  services := false
  throttled := []
  nextConnId := 0
  clients _ := none
  pool := Pool.start
  shutdownRequested := false
  restartRequested := false

def run (cfg : LoginConfig) (es : List LoginStep) : LoginServer :=
  es.foldl (step inet verify) (boot cfg)

end LoginServer

end SekurIRCd
