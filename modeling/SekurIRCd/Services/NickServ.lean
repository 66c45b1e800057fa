/-
# What a refused NickServ command does to the accounts

A command sent to NickServ is checked in its own order, and every check that fails ends it with a
refusal.  `refused_unchanged_iff` goes through every refusing exit: the records are as they were,
with one exception.  RESETPASS looks at the mailed code before the length of the new password, and
a code has one use.  So a good code with a bad password is spent (`bad_password_spends_code`).

Hashes and random codes are given from outside, and the clock is read once for a command.  What
goes to other users and to the ircd is left out, and so are the notices of a logout.
-/
import SekurIRCd.Services.AccountStore
import SekurIRCd.Services.NickIndex

namespace SekurIRCd

open CLib HashIndex

/-! ## 1. What NickServ works with

A command has the store, the users and the table of failures, and what it tells the sender is
written down with whether it is a refusal. -/

/-- `C`, the part that the commands read. Without an `emailCommand` no mail is sent, and addresses
are not verified. -/
structure NickServConfig where
  enabled : Bool
  nick : Text
  maxAccounts : Int
  emailCommand : Text
  admins : List Text
  versionLine : Text
deriving DecidableEq

/-- A slot of the table of failed attempts: an address, the start of its minute, and how many there
were. -/
structure FailSlot where
  ip : Text
  start : Int
  n : Int
deriving DecidableEq

/-- What the command gets from outside: `time`, in milliseconds, the scrypt and SCRAM functions,
the random codes and a printed date. -/
structure Outside where
  nowMs : Int
  hashPassword : Text → Text
  verifyPassword : Text → Text → Bool
  scramVerifier : Text → Option Text
  resetCode : Text
  verifyCode : Text
  showDate : Int → Text

def Outside.now (o : Outside) : Int := o.nowMs / 1000

/-- A notice to the sender, with its text. The first of a command says whether it is refused. -/
inductive NsNotice
  | refused (text : Text)
  | told (text : Text)
deriving DecidableEq

/-- The accounts, the users, the failed attempts, and the notices to the sender so far. The notices
are part of the state, so that a refusal can be told from what comes before it. -/
structure NickServ where
  acc : AccountStore
  users : NsState
  fails : List FailSlot
  notices : List NsNotice

namespace NickServ

variable (cfg : NickServConfig) (o : Outside) (s : NickServ)

def refuse (text : Text) : NickServ := { s with notices := s.notices ++ [.refused text] }

def tell (text : Text) : NickServ := { s with notices := s.notices ++ [.told text] }

/-- `user_by_nick`. -/
def userByNick (nick : Text) : Option (Nat × NsUser) :=
  (s.users.byNick.lookup (ircCasefold 64 nick)).bind fun p => (s.users.heap p).map fun u => (p, u)

/-- `accounts_owner_of_nick`, which may build its index. -/
def owner (nick : Text) : Option Text × NickServ :=
  ((s.acc.ownerOfNick nick).1, { s with acc := (s.acc.ownerOfNick nick).2 })

/-- `login`; no account logs out. The ircd is told by a line, which is not followed here. -/
def login (uid account : Text) : NickServ :=
  match s.users.userByUid uid with
  | some (p, u) => { s with users := s.users.write p { u with account := clip 64 account } }
  | none => s

/-- `logout_all`: whoever is logged in to the account, on any connection. -/
def logoutAll (account : Text) : NickServ :=
  s.users.byUid.entries.foldl
    (fun s e => match s.users.heap e.ptr with
      | some u => if u.account ≠ [] ∧ caseEq u.account account = true then s.login u.uid [] else s
      | none => s) s

/-- `fail_throttled`: five failures from the address within a minute. -/
def failThrottled (ip : Text) : Bool :=
  match s.fails.find? fun f => f.ip == ip with
  | some f => decide (o.now - f.start ≤ 60) && decide (5 ≤ f.n)
  | none => false

/-- The slot `fail_record` takes when the address has none: an empty one, or the one whose minute
began first. -/
def oldestSlot (fails : List FailSlot) : Nat :=
  (fails.zipIdx.foldl
    (fun best x => if x.1.ip = [] ∨ x.1.start < ((fails[best]?).map FailSlot.start).getD 0 then x.2
      else best) 0)

/-- `fail_record`. -/
def failRecord (ip : Text) : NickServ :=
  let slot := ((s.fails.findIdx? fun f => f.ip == ip).getD (oldestSlot s.fails))
  { s with
    fails := s.fails.modify slot fun f =>
      let f := if f.ip ≠ ip ∨ o.now - f.start > 60 then ⟨clip 64 ip, o.now, 0⟩ else f
      { f with n := f.n + 1 } }

/-- `check_password`.  The verifier of an account from before SCRAM is derived by the way. -/
def checkPassword (account password : Text) : Option Text × NickServ :=
  let (owner, s) := s.owner account
  let account := owner.getD account
  match s.acc.hash account with
  | none => (none, s)
  | some hash =>
    if o.verifyPassword password hash = false then (none, s)
    else
      let name := s.acc.displayName account
      match s.acc.scram name, o.scramVerifier password with
      | none, some v => (some name, { s with acc := s.acc.setScram name v o.nowMs })
      | _, _ => (some name, s)

/-- `set_password`. -/
def setPassword (account password : Text) : NickServ :=
  let acc := s.acc.setHash account (o.hashPassword password) o.nowMs
  match o.scramVerifier password with
  | some v => { s with acc := acc.setScram account v o.nowMs }
  | none => { s with acc := acc }

/-- `is_admin`. -/
def isAdmin (u : NsUser) : Bool :=
  decide (u.account ≠ []) && cfg.admins.any fun a => caseEq a u.account

/-- `owns_nick`. -/
def ownsNick (u : NsUser) (nick : Text) : Bool × NickServ :=
  let (owner, s) := s.owner nick
  (decide (u.account ≠ []) && owner.any fun a => caseEq u.account a, s)

/-- `valid_email`. -/
def validEmail (e : Text) : Bool :=
  decide (3 ≤ e.length) && decide (e.length ≤ 120) && e.head? != some '-' && e.head? != some '@' &&
    (e.all fun c =>
      c == '@' || isAlnum c || c == '.' || c == '_' || c == '%' || c == '+' || c == '-') &&
    e.count '@' == 1 && e.getLast? != some '@'

/-- `begin_email`. -/
def beginEmail (account email : Text) : NickServ :=
  if validEmail email = false then
    s.refuse "That does not look like a valid email address".toList
  else if cfg.emailCommand = [] then
    { s with acc := s.acc.setEmail account email false o.nowMs }.tell
      "Email saved (this network does not verify addresses)".toList
  else
    { s with acc := s.acc.setPendingEmail account email o.verifyCode (o.now + 3600) }.tell
      ("A verification code was sent -- finish with /msg NickServ VERIFY <code> ".toList ++
        "within an hour".toList)

/-- `do_register`: the reason it was refused, without its code. A nick that is grouped to an
account can be no account of its own. -/
def doRegister (account password ip : Text) : Option Text × NickServ :=
  if ircValidUser account 30 = false then
    (some (account ++ " is not a valid account name".toList), s)
  else if s.acc.exists_ account then
    (some ("Account ".toList ++ account ++ " already exists".toList), s)
  else
    let (owner, s) := s.owner account
    if owner.isSome then (some ("Account ".toList ++ account ++ " already exists".toList), s)
    else if password.length < 5 ∨ 200 < password.length then
      (some "The password must be 5-200 characters".toList, s)
    else if 0 < cfg.maxAccounts ∧ cfg.maxAccounts ≤ s.acc.count then
      (some "This network has reached its account limit -- ask an operator".toList, s)
    else if s.failThrottled o ip then (some "Too many attempts -- wait a minute".toList, s)
    else
      let s := s.failRecord o ip
      let acc := s.acc.registerHashed account (o.hashPassword password) o.nowMs
      match o.scramVerifier password with
      | some v => (none, { s with acc := acc.setScram account v o.nowMs })
      | none => (none, { s with acc := acc })

/-! ## 2. The commands -/

def mustIdentify : Text := "You must IDENTIFY first".toList

def throttledText : Text := "Too many failed attempts -- wait a minute".toList

def badLengthText : Text := "The new password must be 6-199 characters".toList

/-- `strlen(c3) < 6 || strlen(c3) >= 200`. -/
def badLength (password : Text) : Bool :=
  decide (password.length < 6) || decide (200 ≤ password.length)

/-- REGISTER. -/
def cmdRegister (u : NsUser) (a b : Option Text) : NickServ :=
  match a with
  | none => s.refuse "Syntax: REGISTER <password> [email]".toList
  | some password =>
    if u.account ≠ [] then s.refuse "You are already logged in to an account".toList
    else
      match s.doRegister cfg o u.nick password u.ip with
      | (some why, s) => s.refuse why
      | (none, s) =>
        let keep := clip 64 (s.acc.displayName u.nick)
        let s := (s.login u.uid keep).tell
          ("Account ".toList ++ keep ++ " registered -- you are now logged in as it".toList)
        match b with
        | some email => s.beginEmail cfg o keep email
        | none => s

/-- `cmd_identify`. -/
def cmdIdentify (u : NsUser) (a b : Option Text) : NickServ :=
  match a with
  | none => s.refuse "Syntax: IDENTIFY [account] <password>".toList
  | some first =>
    let account := if b.isSome then first else u.nick
    let password := b.getD first
    if u.account ≠ [] then s.refuse "You are already identified".toList
    else if s.failThrottled o u.ip then s.refuse throttledText
    else
      let (owner, s) := s.owner account
      if (s.acc.suspended (owner.getD account)).isSome then
        s.refuse "That account is suspended -- contact a network operator".toList
      else
        match s.checkPassword o account password with
        | (none, s) => (s.failRecord o u.ip).refuse "Invalid account or password".toList
        | (some name, s) =>
          let keep := clip 64 name
          (s.login u.uid keep).tell ("You are now identified for ".toList ++ keep)

/-- LOGOUT. -/
def cmdLogout (u : NsUser) : NickServ :=
  if u.account = [] then s.refuse "You are not identified".toList
  else (s.login u.uid []).tell "You are now logged out".toList

/-- GHOST. -/
def cmdGhost (p : Nat) (u : NsUser) (a : Option Text) : NickServ :=
  match a with
  | none => s.refuse "Syntax: GHOST <nick>".toList
  | some nick =>
    if u.account = [] then s.refuse mustIdentify
    else
      match s.userByNick nick with
      | none => s.refuse "No such nick (or that is you)".toList
      | some (pt, t) =>
        if pt = p then s.refuse "No such nick (or that is you)".toList
        else
          let (owns, s) := s.ownsNick u nick
          if owns = false ∧ caseEq u.account t.account = false then
            s.refuse "You do not own that nickname".toList
          else s.tell "Ghost session disconnected".toList

/-- `cmd_regain`, with REGAIN's check of its parameter. Who has the nick loses it, if it is on the
same server. -/
def cmdRegain (p : Nat) (u : NsUser) (a : Option Text) : NickServ :=
  match a with
  | none => s.refuse "Syntax: REGAIN <nick>".toList
  | some nick =>
    if u.account = [] then s.refuse mustIdentify
    else
      let (owns, s) := s.ownsNick u nick
      if owns = false then s.refuse "You do not own that nickname".toList
      else
        match s.userByNick nick with
        | none => s.tell ("You have regained ".toList ++ nick)
        | some (pt, t) =>
          if pt = p then s.refuse "You are already using that nickname".toList
          else if t.server ≠ u.server then
            s.tell ("The session using ".toList ++ nick ++
              " was on another server and has been disconnected -- /NICK ".toList ++ nick ++
              " in a moment".toList)
          else s.tell ("You have regained ".toList ++ nick)

/-- `cmd_resetpass`. Without a code it mails one, and says the same whether there is such an
account or not. With one it looks at the code first. -/
def cmdResetpass (p : Nat) (u : NsUser) (a b c3 : Option Text) : NickServ :=
  match a, b, c3 with
  | some account, none, _ =>
    if cfg.emailCommand = [] then
      s.refuse ("Password reset is not available here (no mail is configured) -- ask a ".toList ++
        "network operator".toList)
    else
      let (owner, s) := s.owner account
      let s := match owner with
        | none => s
        | some owner =>
          let pending := s.acc.resetExpires owner
          if s.acc.emailVerified owner = true ∧ (s.acc.email owner).isSome ∧
              ¬ (pending ≠ 0 ∧ pending - 3600 + 300 > o.now) then
            { s with acc := s.acc.setReset owner (some (o.resetCode, o.now + 3600)) o.nowMs }
          else s
      s.tell ("If that account has a verified email address, a reset code has been sent -- ".toList
        ++ "then /msg NickServ RESETPASS <account> <code> <new password> within an hour".toList)
  | some account, some code, some password =>
    let (owner, s) := s.owner account
    let wrong := fun s : NickServ =>
      (s.failRecord o u.ip).refuse "That code is wrong or has expired".toList
    match owner with
    | none => wrong s
    | some owner =>
      if s.failThrottled o u.ip then wrong s
      else
        match s.acc.checkReset owner code o.nowMs with
        | (false, acc) => wrong { s with acc := acc }
        | (true, acc) =>
          let s := { s with acc := acc }
          if badLength password then s.refuse badLengthText
          else
            let account := clip 64 owner
            let s := (s.setPassword o account password).logoutAll account
            -- the user may be one of those who were logged out
            let s := if ((s.users.heap p).getD u).account = [] ∧
              (s.acc.suspended account).isSome = false then s.login u.uid account else s
            s.tell ("Password of ".toList ++ account ++ " reset".toList ++
              if caseEq ((s.users.heap p).getD u).account account then
                " -- you are now identified".toList else [])
  | _, _, _ =>
    s.refuse ("Syntax: RESETPASS <account> (mails a code), then RESETPASS <account> <code> ".toList
      ++ "<new password>".toList)

/-- What INFO tells of a suspension: to an administrator, by whom and why. -/
def infoSuspension (u : NsUser) (who : Text) : NickServ :=
  match s.acc.suspended who with
  | some (by_, reason) =>
    if isAdmin cfg u then s.tell ("Suspended by ".toList ++ by_ ++
      (if reason = [] then [] else ": ".toList ++ reason))
    else s.tell "This account is suspended".toList
  | none => s

/-- What INFO tells the owner and the administrators only: the address, the grouped nicks and the
fingerprint. -/
def infoDetails (who : Text) : List NsNotice :=
  [.told (match s.acc.email who with
    | some e => "Email: ".toList ++ e ++
        (if s.acc.emailVerified who then " (verified)".toList else " (unverified)".toList)
    | none => "Email: (none)".toList)] ++
  (if s.acc.groupNicks who = [] then []
    else [.told ("Grouped nicks: ".toList ++
      clip 300 (", ".toList.intercalate ((s.acc.groupNicks who).map (·.getD []))))]) ++
  (s.acc.fingerprint who).toList.map fun fp => .told ("Certificate fingerprint: ".toList ++ fp)

/-- `cmd_info`. -/
def cmdInfo (u : NsUser) (a : Option Text) : NickServ :=
  let (who, s) := match a with
    | some name => s.owner name
    | none => (if u.account ≠ [] then some u.account else none, s)
  match who with
  | none =>
    s.refuse (if a.isSome then "No such account".toList
      else "You are not identified -- INFO <account>".toList)
  | some who =>
    let s := (s.tell ("Account ".toList ++ who ++ ", registered ".toList ++
      o.showDate (s.acc.createdAt who))).infoSuspension cfg u who
    if (u.account = [] ∨ caseEq u.account who = false) ∧ isAdmin cfg u = false then s
    else { s with notices := s.notices ++ s.infoDetails who }

/-- `cmd_cert`. -/
def cmdCert (u : NsUser) (sub : Option Text) : NickServ :=
  if u.account = [] then s.refuse mustIdentify
  else if sub.any fun x => caseEq x "ADD".toList then
    if u.certfp = [] then
      s.refuse "Your connection isn't presenting a TLS client certificate".toList
    else
      { s with acc := s.acc.setFingerprint u.account (some u.certfp) o.nowMs }.tell
        ("Certificate fingerprint ".toList ++ u.certfp ++ " bound to ".toList ++ u.account ++
          " -- SASL EXTERNAL will now log this certificate in".toList)
  else if sub.any fun x => caseEq x "DEL".toList then
    { s with acc := s.acc.setFingerprint u.account none o.nowMs }.tell
      "Certificate fingerprint removed -- SASL EXTERNAL is now disabled for this account".toList
  else if sub.any fun x => caseEq x "INFO".toList then
    match s.acc.fingerprint u.account with
    | some fp => s.tell ("Certificate fingerprint on file: ".toList ++ fp)
    | none => s.tell "No certificate fingerprint is on file for this account".toList
  else s.refuse "Syntax: CERT ADD|DEL|INFO".toList

/-- `skip_words`. -/
def skipWords : Nat → Text → Text
  | 0, t => t.dropWhile (· = ' ')
  | n + 1, t => skipWords n ((t.dropWhile (· = ' ')).dropWhile (· ≠ ' '))

/-- The last words of an administrator's command. -/
def reported (text : Text) : NickServ := s.tell (clip 400 text)

/-- `cmd_admin`: SUSPEND, UNSUSPEND, FDROP and SASET PASSWORD. -/
def cmdAdmin (u : NsUser) (cmd : Text) (a b c3 : Option Text) (text : Text) : NickServ :=
  if isAdmin cfg u = false then
    s.refuse ("Permission denied -- that needs a services admin account ".toList ++
      "([nickserv] admins)".toList)
  else
    let saset := caseEq cmd "SASET".toList
    if saset = true ∧
        ((a.any fun x => caseEq x "PASSWORD".toList) = false ∨ b = none ∨ c3 = none) then
      s.refuse "Syntax: SASET PASSWORD <account> <new password>".toList
    else
      match if saset then b else a with
      | none =>
        s.refuse ("Syntax: ".toList ++ cmd ++ " <account>".toList ++
          if caseEq cmd "SUSPEND".toList then " [reason]".toList else [])
      | some name =>
        let (owner, s) := s.owner name
        match owner with
        | none => s.refuse "No such account".toList
        | some owner =>
          let account := clip 64 owner
          if caseEq cmd "SUSPEND".toList then
            let reason := skipWords 2 text
            let s := { s with acc := s.acc.setSuspended account (some (u.nick, reason)) o.nowMs }
            (s.logoutAll account).reported (u.nick ++ " suspended account ".toList ++ account ++
              if reason = [] then [] else ": ".toList ++ reason)
          else if caseEq cmd "UNSUSPEND".toList then
            if (s.acc.suspended account).isSome = false then
              s.refuse "That account is not suspended".toList
            else
              { s with acc := s.acc.setSuspended account none o.nowMs }.reported
                (u.nick ++ " unsuspended account ".toList ++ account)
          else if caseEq cmd "FDROP".toList then
            let s := s.logoutAll account
            { s with acc := s.acc.drop account }.reported
              (u.nick ++ " force-dropped account ".toList ++ account)
          else
            let password := c3.getD []
            if badLength password then s.refuse badLengthText
            else (s.setPassword o account password).reported
              (u.nick ++ " used SASET PASSWORD on account ".toList ++ account)

/-- `cmd_help`. -/
def cmdHelp (u : NsUser) : NickServ :=
  let s := s.tell
    ("Commands: REGISTER <password> [email], IDENTIFY [account] <password>, LOGOUT, ".toList ++
      "INFO [account], SET PASSWORD <old> <new>, SET EMAIL <address>, VERIFY <code>, GROUP, ".toList
      ++ "UNGROUP <nick>, GHOST <nick>, REGAIN <nick>, RESETPASS <account> ".toList ++
      "[<code> <new password>], CERT ADD|DEL|INFO, DROP <password>".toList)
  if isAdmin cfg u then
    s.tell ("Admin commands: SUSPEND <account> [reason], UNSUSPEND <account>, ".toList ++
      "FDROP <account>, SASET PASSWORD <account> <new>".toList)
  else s

/-- SET PASSWORD. -/
def cmdSetPassword (u : NsUser) (b c3 : Option Text) : NickServ :=
  if u.account = [] then s.refuse mustIdentify
  else
    match b, c3 with
    | some current, some password =>
      if badLength password then s.refuse badLengthText
      else if s.failThrottled o u.ip then s.refuse throttledText
      else
        match s.checkPassword o u.account current with
        | (none, s) => (s.failRecord o u.ip).refuse "Current password incorrect".toList
        | (some _, s) => (s.setPassword o u.account password).tell "Password changed".toList
    | _, _ => s.refuse "Syntax: SET PASSWORD <current> <new>".toList

/-- SET EMAIL. -/
def cmdSetEmail (u : NsUser) (b : Option Text) : NickServ :=
  if u.account = [] then s.refuse mustIdentify
  else
    match b with
    | none => s.refuse "Syntax: SET EMAIL <address>".toList
    | some email => s.beginEmail cfg o u.account email

/-- VERIFY. -/
def cmdVerify (u : NsUser) (a : Option Text) : NickServ :=
  if u.account = [] then s.refuse mustIdentify
  else
    match a with
    | none => s.refuse "Syntax: VERIFY <code>".toList
    | some code =>
      match s.acc.checkVerify u.account code o.nowMs with
      | (true, acc) => { s with acc := acc }.tell "Email verified".toList
      | (false, acc) => { s with acc := acc }.refuse "That code is wrong or has expired".toList

/-- DROP. -/
def cmdDrop (u : NsUser) (a : Option Text) : NickServ :=
  if u.account = [] then s.refuse mustIdentify
  else
    match a with
    | none => s.refuse "Syntax: DROP <password> -- permanently deletes your account".toList
    | some password =>
      if s.failThrottled o u.ip then s.refuse throttledText
      else
        match s.checkPassword o u.account password with
        | (none, s) =>
          (s.failRecord o u.ip).refuse "Password incorrect -- account NOT dropped".toList
        | (some _, s) =>
          let s := s.logoutAll u.account
          { s with acc := s.acc.drop u.account }.tell "Your account has been dropped".toList

/-- GROUP. -/
def cmdGroup (u : NsUser) : NickServ :=
  if u.account = [] then s.refuse mustIdentify
  else
    match s.acc.groupAdd u.account u.nick o.nowMs with
    | (false, acc) => { s with acc := acc }.refuse
        "That nick is already registered/grouped, or your group is full (10 nicks)".toList
    | (true, acc) => { s with acc := acc }.tell
        (u.nick ++ " is now part of account ".toList ++ u.account)

/-- UNGROUP. -/
def cmdUngroup (u : NsUser) (a : Option Text) : NickServ :=
  if u.account = [] then s.refuse mustIdentify
  else
    match a with
    | none => s.refuse "Syntax: UNGROUP <nick> (a nick in your group)".toList
    | some nick =>
      match s.acc.groupDel u.account nick o.nowMs with
      | (false, acc) => { s with acc := acc }.refuse
          "Syntax: UNGROUP <nick> (a nick in your group)".toList
      | (true, acc) => { s with acc := acc }.tell "Nick removed from your account".toList

/-- The command and its parameters, as `ns_privmsg` cuts them out of the message. The message is
cut to the buffer first. -/
def commandWords (text : Text) : List Text := strtok ' ' (clip 420 text)

/-- A command of a user, by its words; `text` is the whole message. -/
def dispatch (p : Nat) (u : NsUser) (text : Text) : NickServ :=
  match commandWords text with
  | [] => s.cmdHelp cfg u
  | cmd :: args =>
    let a := args[0]?
    let b := args[1]?
    let c3 := args[2]?
    let is := fun name : String => caseEq cmd name.toList
    if is "HELP" then s.cmdHelp cfg u
    else if is "REGISTER" then s.cmdRegister cfg o u a b
    else if is "IDENTIFY" ∨ is "ID" then s.cmdIdentify o u a b
    else if is "LOGOUT" then s.cmdLogout u
    else if is "GHOST" then s.cmdGhost p u a
    else if is "REGAIN" then s.cmdRegain p u a
    else if is "RESETPASS" then s.cmdResetpass cfg o p u a b c3
    else if is "SUSPEND" ∨ is "UNSUSPEND" ∨ is "FDROP" ∨ is "SASET" then
      s.cmdAdmin cfg o u cmd a b c3 text
    else if is "INFO" then s.cmdInfo cfg o u a
    else if is "CERT" then s.cmdCert o u a
    else if is "SET" ∧ (a.any fun x => caseEq x "PASSWORD".toList) = true then
      s.cmdSetPassword o u b c3
    else if is "SET" ∧ (a.any fun x => caseEq x "EMAIL".toList) = true then s.cmdSetEmail cfg o u b
    else if is "VERIFY" then s.cmdVerify o u a
    else if is "DROP" then s.cmdDrop o u a
    else if is "GROUP" then s.cmdGroup o u
    else if is "UNGROUP" then s.cmdUngroup o u a
    else s.refuse "Unknown command -- /msg NickServ HELP".toList

/-- `ns_privmsg`. The message is cut at spaces into a few words, and what is behind them is kept
for the commands that want the rest of the line. -/
def nsPrivmsg (target from_ text : Text) : NickServ :=
  if cfg.enabled = false ∨ caseEq target cfg.nick = false then s
  else
    match s.userByNick from_ with
    | none => s
    | some (p, u) =>
      if text.head? = some '\x01' then
        if casePrefix "VERSION".toList text.tail then s.tell cfg.versionLine else s
      else s.dispatch cfg o p u text

/-! ## 3. What a refusal leaves alone

A command is a sequence of things that change a record and things that do not; a refusal has to
come before any of the first kind. -/

end NickServ

/-- The first notice that is new is a refusal. Other notices may follow it. -/
def RefusedBy (s s' : NickServ) : Prop := ∃ t rest, s'.notices = s.notices ++ .refused t :: rest

/-- The first notice that is new is none. -/
def TakenBy (s s' : NickServ) : Prop := ∃ t rest, s'.notices = s.notices ++ .told t :: rest

/-- **A refusal leaves every record as it was.** A command is refused when the user is told so; the
counts of failed attempts may change with it. -/
def KeepsRecords (s s' : NickServ) : Prop := RefusedBy s s' → s'.acc.data = s.acc.data

/-- The records and the notices are as they were; the users and the failed attempts may not be. -/
structure Untouched (s s' : NickServ) : Prop where
  data : s'.acc.data = s.acc.data
  notices : s'.notices = s.notices

section Refusals

variable {s s₁ s₂ s' : NickServ}

theorem Untouched.refl (s : NickServ) : Untouched s s := ⟨rfl, rfl⟩

theorem Untouched.trans (h : Untouched s s₁) (h' : Untouched s₁ s₂) : Untouched s s₂ :=
  ⟨h'.data.trans h.data, h'.notices.trans h.notices⟩

theorem keeps_refuse (h : s'.acc.data = s.acc.data) (t : Text) : KeepsRecords s (s'.refuse t) :=
  fun _ => h

theorem Untouched.refuse (h : Untouched s s') (t : Text) : KeepsRecords s (s'.refuse t) :=
  keeps_refuse h.data t

theorem TakenBy.keeps (h : TakenBy s s') : KeepsRecords s s' := by
  rintro ⟨t, rest, hr⟩
  obtain ⟨t', rest', ht⟩ := h
  rw [ht, List.append_cancel_left_eq] at hr
  exact absurd (List.cons.inj hr).1 (by simp)

theorem takenBy_tell (h : s'.notices = s.notices) (t : Text) : TakenBy s (s'.tell t) :=
  ⟨t, [], by rw [NickServ.tell, h]⟩

/-- What is done to the accounts and told is no refusal. -/
theorem keeps_told (h : s₁.notices = s.notices) (acc : AccountStore) (t : Text) :
    KeepsRecords s ({ s₁ with acc := acc }.tell t) :=
  TakenBy.keeps ⟨t, [], by rw [NickServ.tell, h]⟩

/-- What was taken stays so, whatever is said next. -/
theorem TakenBy.more (h : TakenBy s s₁) {more : List NsNotice}
    (hm : s₂.notices = s₁.notices ++ more) : TakenBy s s₂ := by
  obtain ⟨t, rest, ht⟩ := h
  exact ⟨t, rest ++ more, by rw [hm, ht, List.append_assoc, List.cons_append]⟩

theorem TakenBy.tell (h : TakenBy s s₁) (t : Text) : TakenBy s (s₁.tell t) :=
  have hm : (s₁.tell t).notices = s₁.notices ++ [.told t] := rfl
  h.more hm

end Refusals

namespace AccountStore

variable (st : AccountStore)

theorem groupAdd_refused {name nick : Text} {nowMs : Int} {st' : AccountStore}
    (h : st.groupAdd name nick nowMs = (false, st')) : st'.data = st.data := by
  unfold groupAdd at h
  split at h
  · exact congrArg data (Prod.mk.inj h).2.symm
  · dsimp only at h
    split at h
    · rw [← (Prod.mk.inj h).2]
      exact st.ownerOfNick_data nick
    · split at h
      · rw [← (Prod.mk.inj h).2]
        exact st.ownerOfNick_data nick
      · exact absurd (Prod.mk.inj h).1 (by simp)

theorem groupDel_refused {name nick : Text} {nowMs : Int} {st' : AccountStore}
    (h : st.groupDel name nick nowMs = (false, st')) : st'.data = st.data := by
  unfold groupDel at h
  split at h
  · exact congrArg data (Prod.mk.inj h).2.symm
  · dsimp only at h
    split at h
    · exact absurd (Prod.mk.inj h).1 (by simp)
    · exact congrArg data (Prod.mk.inj h).2.symm

theorem checkVerify_refused {name code : Text} {nowMs : Int} {st' : AccountStore}
    (h : st.checkVerify name code nowMs = (false, st')) : st'.data = st.data := by
  unfold checkVerify at h
  split at h
  · exact congrArg data (Prod.mk.inj h).2.symm
  · split at h
    · split at h
      · exact congrArg data (Prod.mk.inj h).2.symm
      · exact absurd (Prod.mk.inj h).1 (by simp)
    · exact congrArg data (Prod.mk.inj h).2.symm

end AccountStore

namespace NickServ

variable (cfg : NickServConfig) (o : Outside) {s s' : NickServ}

theorem owner_untouched (s : NickServ) (nick : Text) : Untouched s (s.owner nick).2 :=
  ⟨s.acc.ownerOfNick_data nick, rfl⟩

theorem ownsNick_untouched (s : NickServ) (u : NsUser) (nick : Text) :
    Untouched s (s.ownsNick u nick).2 := owner_untouched s nick

theorem failRecord_untouched (s : NickServ) (ip : Text) : Untouched s (s.failRecord o ip) :=
  ⟨rfl, rfl⟩

theorem login_untouched (s : NickServ) (uid account : Text) :
    Untouched s (s.login uid account) := by
  unfold login
  split
  · exact ⟨rfl, rfl⟩
  · exact Untouched.refl s

theorem logoutAll_untouched (s : NickServ) (account : Text) :
    Untouched s (s.logoutAll account) := by
  unfold logoutAll
  generalize s.users.byUid.entries = es
  induction es generalizing s with
  | nil => exact Untouched.refl s
  | cons e es ih =>
    rw [List.foldl_cons]
    refine Untouched.trans ?_ (ih _)
    split
    · split
      · exact login_untouched s _ _
      · exact Untouched.refl s
    · exact Untouched.refl s

theorem setPassword_notices (s : NickServ) (account password : Text) :
    (s.setPassword o account password).notices = s.notices := by
  unfold setPassword
  dsimp only
  split <;> rfl

/-- A password that is wrong changes nothing, and one that is right says nothing. A right one may
bring the account's verifier up to date. -/
theorem checkPassword_untouched {account password : Text} {x : Option Text}
    (h : s.checkPassword o account password = (x, s')) :
    s'.notices = s.notices ∧ (x = none → s'.acc.data = s.acc.data) := by
  unfold checkPassword at h
  dsimp only at h
  split at h
  · rw [← (Prod.mk.inj h).2]
    exact ⟨rfl, fun _ => (owner_untouched s account).data⟩
  · split at h
    · rw [← (Prod.mk.inj h).2]
      exact ⟨rfl, fun _ => (owner_untouched s account).data⟩
    · split at h <;>
      · rw [← (Prod.mk.inj h).1, ← (Prod.mk.inj h).2]
        exact ⟨rfl, fun hx => absurd hx (by simp)⟩

theorem doRegister_untouched {account password ip : Text} {x : Option Text}
    (h : s.doRegister cfg o account password ip = (x, s')) :
    s'.notices = s.notices ∧ (x.isSome = true → s'.acc.data = s.acc.data) := by
  have hsame : ∀ {s₁ : NickServ} {t : Text}, Untouched s s₁ → (some t, s₁) = (x, s') →
      s'.notices = s.notices ∧ (x.isSome = true → s'.acc.data = s.acc.data) := by
    intro s₁ t hs he
    rw [← (Prod.mk.inj he).2]
    exact ⟨hs.notices, fun _ => hs.data⟩
  unfold doRegister at h
  dsimp only at h
  split at h
  · exact hsame (Untouched.refl s) h
  · split at h
    · exact hsame (Untouched.refl s) h
    · split at h
      · exact hsame (owner_untouched s account) h
      · split at h
        · exact hsame (owner_untouched s account) h
        · split at h
          · exact hsame (owner_untouched s account) h
          · split at h
            · exact hsame (owner_untouched s account) h
            · split at h <;>
              · rw [← (Prod.mk.inj h).1, ← (Prod.mk.inj h).2]
                exact ⟨rfl, fun hx => absurd hx (by simp)⟩

theorem beginEmail_keeps (s : NickServ) (account email : Text) :
    KeepsRecords s (s.beginEmail cfg o account email) ∧
      ∃ more, (s.beginEmail cfg o account email).notices = s.notices ++ more := by
  unfold beginEmail
  split
  · exact ⟨keeps_refuse rfl _, _, rfl⟩
  · split <;> exact ⟨keeps_told rfl _ _, _, rfl⟩

/-! ### The commands -/

theorem cmdRegister_keeps (s : NickServ) (u : NsUser) (a b : Option Text) :
    KeepsRecords s (s.cmdRegister cfg o u a b) := by
  unfold cmdRegister
  split
  · exact keeps_refuse rfl _
  · split
    · exact keeps_refuse rfl _
    · split
      · next why s₁ h => exact keeps_refuse ((doRegister_untouched cfg o h).2 rfl) _
      · next s₁ h =>
        dsimp only
        have hlogin := login_untouched s₁ u.uid (clip 64 (s₁.acc.displayName u.nick))
        have hquiet := hlogin.notices.trans (doRegister_untouched cfg o h).1
        split
        · exact ((takenBy_tell hquiet _).more (beginEmail_keeps cfg o _ _ _).2.choose_spec).keeps
        · exact (takenBy_tell hquiet _).keeps

theorem cmdIdentify_keeps (s : NickServ) (u : NsUser) (a b : Option Text) :
    KeepsRecords s (s.cmdIdentify o u a b) := by
  unfold cmdIdentify
  split
  · exact keeps_refuse rfl _
  · next first =>
    dsimp only
    generalize (if b.isSome = true then first else u.nick) = account
    have howner := owner_untouched s account
    split
    · exact keeps_refuse rfl _
    · split
      · exact keeps_refuse rfl _
      · split
        · exact howner.refuse _
        · split
          · next s₁ h =>
            exact keeps_refuse (((checkPassword_untouched o h).2 rfl).trans howner.data) _
          · next name s₁ h =>
            exact (takenBy_tell ((login_untouched s₁ _ _).notices.trans
              ((checkPassword_untouched o h).1.trans howner.notices)) _).keeps

theorem cmdLogout_keeps (s : NickServ) (u : NsUser) : KeepsRecords s (s.cmdLogout u) := by
  unfold cmdLogout
  split
  · exact keeps_refuse rfl _
  · exact (takenBy_tell (login_untouched s _ _).notices _).keeps

theorem cmdGhost_keeps (s : NickServ) (p : Nat) (u : NsUser) (a : Option Text) :
    KeepsRecords s (s.cmdGhost p u a) := by
  unfold cmdGhost
  split
  · exact keeps_refuse rfl _
  · next nick =>
    split
    · exact keeps_refuse rfl _
    · split
      · exact keeps_refuse rfl _
      · split
        · exact keeps_refuse rfl _
        · have hown := ownsNick_untouched s u nick
          dsimp only
          split
          · exact hown.refuse _
          · exact (takenBy_tell hown.notices _).keeps

theorem cmdRegain_keeps (s : NickServ) (p : Nat) (u : NsUser) (a : Option Text) :
    KeepsRecords s (s.cmdRegain p u a) := by
  unfold cmdRegain
  split
  · exact keeps_refuse rfl _
  · next nick =>
    split
    · exact keeps_refuse rfl _
    · have hown := ownsNick_untouched s u nick
      dsimp only
      split
      · exact hown.refuse _
      · split
        · exact (takenBy_tell hown.notices _).keeps
        · split
          · exact hown.refuse _
          · split <;> exact (takenBy_tell hown.notices _).keeps

theorem cmdInfo_keeps (s : NickServ) (u : NsUser) (a : Option Text) :
    KeepsRecords s (s.cmdInfo cfg o u a) := by
  have hwho : Untouched s (match a with
      | some name => s.owner name
      | none => (if u.account ≠ [] then some u.account else none, s)).2 := by
    split
    · exact owner_untouched s _
    · exact Untouched.refl s
  have hmore : ∀ (s₁ : NickServ) (who : Text),
      ∃ more, (s₁.infoSuspension cfg u who).notices = s₁.notices ++ more := by
    intro s₁ who
    unfold infoSuspension
    split
    · split <;> exact ⟨_, rfl⟩
    · exact ⟨[], (List.append_nil _).symm⟩
  unfold cmdInfo
  dsimp only
  split
  · exact hwho.refuse _
  · next who _ =>
    have htaken : ∀ {s₁ : NickServ}, Untouched s s₁ → ∀ t : Text,
        TakenBy s ((s₁.tell t).infoSuspension cfg u who) := by
      intro s₁ h₁ t
      obtain ⟨more, hm⟩ := hmore (s₁.tell t) who
      exact (takenBy_tell h₁.notices t).more hm
    split
    · exact (htaken hwho _).keeps
    · exact ((htaken hwho _).more rfl).keeps

theorem cmdCert_keeps (s : NickServ) (u : NsUser) (sub : Option Text) :
    KeepsRecords s (s.cmdCert o u sub) := by
  have htold : ∀ {acc : AccountStore} (t : Text), KeepsRecords s ({ s with acc := acc }.tell t) :=
    fun t => keeps_told rfl _ t
  unfold cmdCert
  split
  · exact keeps_refuse rfl _
  · split
    · split
      · exact keeps_refuse rfl _
      · exact htold _
    · split
      · exact htold _
      · split
        · split <;> exact htold _
        · exact keeps_refuse rfl _

theorem cmdAdmin_keeps (s : NickServ) (u : NsUser) (cmd : Text) (a b c3 : Option Text)
    (text : Text) : KeepsRecords s (s.cmdAdmin cfg o u cmd a b c3 text) := by
  unfold cmdAdmin
  split
  · exact keeps_refuse rfl _
  · dsimp only
    split
    · exact keeps_refuse rfl _
    · split
      · exact keeps_refuse rfl _
      · next name _ =>
        have howner := owner_untouched s name
        split
        · exact howner.refuse _
        · next owner _ =>
          have htold : ∀ {s₁ : NickServ} (t : Text), s₁.notices = (s.owner name).2.notices →
              KeepsRecords s (s₁.reported t) :=
            fun t h => (takenBy_tell (h.trans howner.notices) _).keeps
          split
          · exact htold _ (logoutAll_untouched _ _).notices
          · split
            · split
              · exact howner.refuse _
              · exact htold _ rfl
            · split
              · exact htold _ (logoutAll_untouched _ _).notices
              · split
                · exact howner.refuse _
                · exact htold _ (setPassword_notices o _ _ _)

theorem cmdHelp_keeps (s : NickServ) (u : NsUser) : KeepsRecords s (s.cmdHelp cfg u) := by
  unfold cmdHelp
  dsimp only
  split
  · exact ((takenBy_tell rfl _).tell _).keeps
  · exact (takenBy_tell rfl _).keeps

theorem cmdSetPassword_keeps (s : NickServ) (u : NsUser) (b c3 : Option Text) :
    KeepsRecords s (s.cmdSetPassword o u b c3) := by
  unfold cmdSetPassword
  split
  · exact keeps_refuse rfl _
  · split
    · split
      · exact keeps_refuse rfl _
      · split
        · exact keeps_refuse rfl _
        · split
          · next s₁ h => exact keeps_refuse ((checkPassword_untouched o h).2 rfl) _
          · next s₁ h =>
            exact (takenBy_tell ((setPassword_notices o _ _ _).trans
              (checkPassword_untouched o h).1) _).keeps
    · exact keeps_refuse rfl _

theorem cmdSetEmail_keeps (s : NickServ) (u : NsUser) (b : Option Text) :
    KeepsRecords s (s.cmdSetEmail cfg o u b) := by
  unfold cmdSetEmail
  split
  · exact keeps_refuse rfl _
  · split
    · exact keeps_refuse rfl _
    · exact (beginEmail_keeps cfg o s _ _).1

theorem cmdVerify_keeps (s : NickServ) (u : NsUser) (a : Option Text) :
    KeepsRecords s (s.cmdVerify o u a) := by
  unfold cmdVerify
  split
  · exact keeps_refuse rfl _
  · split
    · exact keeps_refuse rfl _
    · split
      · exact keeps_told rfl _ _
      · next acc h => exact keeps_refuse (s.acc.checkVerify_refused h) _

theorem cmdDrop_keeps (s : NickServ) (u : NsUser) (a : Option Text) :
    KeepsRecords s (s.cmdDrop o u a) := by
  unfold cmdDrop
  split
  · exact keeps_refuse rfl _
  · split
    · exact keeps_refuse rfl _
    · split
      · exact keeps_refuse rfl _
      · split
        · next s₁ h => exact keeps_refuse ((checkPassword_untouched o h).2 rfl) _
        · next s₁ h =>
          exact keeps_told ((logoutAll_untouched s₁ u.account).notices.trans
            (checkPassword_untouched o h).1) _ _

theorem cmdGroup_keeps (s : NickServ) (u : NsUser) : KeepsRecords s (s.cmdGroup o u) := by
  unfold cmdGroup
  split
  · exact keeps_refuse rfl _
  · split
    · next acc h => exact keeps_refuse (s.acc.groupAdd_refused h) _
    · exact keeps_told rfl _ _

theorem cmdUngroup_keeps (s : NickServ) (u : NsUser) (a : Option Text) :
    KeepsRecords s (s.cmdUngroup o u a) := by
  unfold cmdUngroup
  split
  · exact keeps_refuse rfl _
  · split
    · exact keeps_refuse rfl _
    · split
      · next acc h => exact keeps_refuse (s.acc.groupDel_refused h) _
      · exact keeps_told rfl _ _

/-! ## 4. The code that is spent -/

end NickServ

namespace JsonRecord

/-- How many items have the key. -/
def uses (r : JsonRecord) (key : Text) : Nat := r.countP fun x => x.1 == key

theorem uses_delete_le (r : JsonRecord) (k key : Text) : (r.delete k).uses key ≤ r.uses key :=
  List.eraseP_sublist.countP_le

theorem uses_delete_lt {r : JsonRecord} {key : Text} (h : (r.get key).isSome = true) :
    (r.delete key).uses key < r.uses key := by
  rw [get, Option.isSome_map, List.find?_isSome] at h
  obtain ⟨x, hx, hkey⟩ := h
  obtain ⟨y, front, back, -, hy, hsplit, hdel⟩ :=
    @List.exists_of_eraseP _ (fun x => x.1 == key) r x hx hkey
  have hcons : (y :: back).countP (fun x => x.1 == key) = back.countP (fun x => x.1 == key) + 1 :=
    List.countP_cons_of_pos hy
  rw [delete, uses, uses, hdel, hsplit, List.countP_append, List.countP_append, hcons]
  omega

theorem uses_stamped_le {r : JsonRecord} {key : Text} (hne : key ≠ "updated_at".toList)
    (nowMs : Int) : (r.stamped nowMs).uses key ≤ r.uses key := by
  have hadd : ∀ (r : JsonRecord) (item : JsonItem),
      (r.add "updated_at".toList item).uses key = r.uses key := by
    intro r item
    rw [uses, uses, add, List.countP_append]
    have hkey : ("updated_at".toList == key) = false := beq_eq_false_iff_ne.mpr (Ne.symm hne)
    rw [List.countP_cons, hkey]
    rfl
  rw [stamped, hadd]
  exact uses_delete_le r _ key

end JsonRecord

namespace AccountStore

variable {st st' : AccountStore}

theorem find_congr (hdata : st'.data = st.data) (hname : st'.byName = st.byName) (name : Text) :
    st'.find name = st.find name := by
  rw [find, find, hname]
  congr 1
  funext addr
  rw [deref, deref, hdata]

theorem resetOpen_congr (hdata : st'.data = st.data) (hname : st'.byName = st.byName)
    (name code : Text) (nowMs : Int) :
    st'.resetOpen name code nowMs = st.resetOpen name code nowMs := by
  unfold resetOpen resetExpires textOf numberOf
  rw [find_congr hdata hname]

theorem find_mem {name : Text} {r : StoredRecord} (h : st.find name = some r) : r ∈ st.data := by
  obtain ⟨addr, -, hr⟩ := Option.bind_eq_some_iff.mp h
  exact List.mem_of_find?_eq_some hr

/-- **A code that is taken is gone.** -/
theorem setReset_data_ne {name code : Text} {nowMs : Int}
    (h : st.resetOpen name code nowMs = true) : (st.setReset name none nowMs).data ≠ st.data := by
  unfold resetOpen at h
  split at h
  · exact absurd h Bool.false_ne_true
  · next c hc =>
    obtain ⟨r, hr, htext⟩ := Option.bind_eq_some_iff.mp hc
    have hget : (r.items.get "reset_code".toList).isSome = true := by
      unfold JsonRecord.getText at htext
      split at htext
      · next hg => rw [hg]; rfl
      · exact absurd htext (by simp)
    rw [setReset, update, hr]
    intro hdata
    have hfix := List.map_inj_left.mp (hdata.trans (List.map_id _).symm) r (find_mem hr)
    rw [if_pos rfl, id_eq] at hfix
    have huses := congrArg (fun x : StoredRecord => x.items.uses "reset_code".toList) hfix
    have hlt := JsonRecord.uses_delete_lt hget
    have hle := JsonRecord.uses_delete_le (r.items.delete "reset_code".toList)
      "reset_expires".toList "reset_code".toList
    have hst := @JsonRecord.uses_stamped_le
      ((r.items.delete "reset_code".toList).delete "reset_expires".toList) "reset_code".toList
      (by decide) nowMs
    dsimp only at huses
    omega

end AccountStore

namespace NickServ

variable (cfg : NickServConfig) (o : Outside) {s s' : NickServ}

/-- RESETPASS spends the code and then refuses the password: the code holds, the new password has
the wrong length, and the address has not failed too often. -/
def Spends (s : NickServ) (u : NsUser) (a b c3 : Option Text) : Prop :=
  ∃ account code password owner, a = some account ∧ b = some code ∧ c3 = some password ∧
    (s.acc.ownerOfNick account).1 = some owner ∧ s.failThrottled o u.ip = false ∧
    s.acc.resetOpen owner code o.nowMs = true ∧ badLength password = true

/-- RESETPASS with a code and a new password, for an account that exists. -/
theorem cmdResetpass_coded {account code password owner : Text} (s : NickServ) (p : Nat)
    (u : NsUser) (howner : (s.acc.ownerOfNick account).1 = some owner) :
    KeepsRecords s (s.cmdResetpass cfg o p u (some account) (some code) (some password)) ↔
      ¬ (s.failThrottled o u.ip = false ∧ s.acc.resetOpen owner code o.nowMs = true ∧
        badLength password = true) := by
  have hunt := owner_untouched s account
  have hopen : (s.owner account).2.acc.resetOpen owner code o.nowMs =
      s.acc.resetOpen owner code o.nowMs :=
    AccountStore.resetOpen_congr hunt.data (s.acc.ownerOfNick_byName account) _ _ _
  have hfirst : (s.owner account).1 = some owner := howner
  have hfails : (s.owner account).2.failThrottled o u.ip = s.failThrottled o u.ip := rfl
  simp only [cmdResetpass, hfirst, hfails, AccountStore.checkReset, hopen]
  by_cases hthrottled : s.failThrottled o u.ip = true
  · rw [if_pos hthrottled]
    exact iff_of_true (hunt.trans (failRecord_untouched o _ _) |>.refuse _)
      (fun h => by rw [h.1] at hthrottled; exact absurd hthrottled Bool.false_ne_true)
  · rw [if_neg hthrottled]
    by_cases hcode : s.acc.resetOpen owner code o.nowMs = true
    · rw [if_pos hcode]
      dsimp only
      by_cases hbad : badLength password = true
      · rw [if_pos hbad]
        refine iff_of_false (fun hkeeps => ?_)
          (fun h => h ⟨Bool.eq_false_of_not_eq_true hthrottled, hcode, hbad⟩)
        have hne := AccountStore.setReset_data_ne (hopen.trans hcode)
        exact hne ((hkeeps ⟨badLengthText, [], rfl⟩).trans hunt.data.symm)
      · rw [if_neg hbad]
        refine iff_of_true ?_ (fun h => hbad h.2.2)
        have hquiet : ∀ s₁ : NickServ, s₁.notices = s.notices →
            ((s₁.setPassword o (clip 64 owner) password).logoutAll (clip 64 owner)).notices =
              s.notices :=
          fun s₁ h₁ => (logoutAll_untouched _ _).notices.trans
            ((setPassword_notices o s₁ _ _).trans h₁)
        refine (takenBy_tell ?_ _).keeps
        split
        · exact (login_untouched _ _ _).notices.trans (hquiet _ hunt.notices)
        · exact hquiet _ hunt.notices
    · rw [if_neg hcode]
      exact iff_of_true (hunt.trans (failRecord_untouched o _ _) |>.refuse _) (fun h => hcode h.2.1)

/-- **RESETPASS keeps the records** unless it spends a code. The code is gone as soon as it is
found right, also where the new password is then refused. -/
theorem cmdResetpass_keeps_iff (s : NickServ) (p : Nat) (u : NsUser) (a b c3 : Option Text) :
    KeepsRecords s (s.cmdResetpass cfg o p u a b c3) ↔ ¬ Spends o s u a b c3 := by
  match a, b, c3 with
  | none, b, c3 =>
    have hcmd : ∃ t, s.cmdResetpass cfg o p u none b c3 = s.refuse t := ⟨_, by
      cases b <;> cases c3 <;> rfl⟩
    obtain ⟨t, ht⟩ := hcmd
    rw [ht]
    exact iff_of_true (keeps_refuse rfl t) (fun ⟨_, _, _, _, ha, _⟩ => absurd ha (by simp))
  | some account, none, c3 =>
    refine iff_of_true ?_ (fun ⟨_, _, _, _, _, hb, _⟩ => absurd hb (by simp))
    have hunt := owner_untouched s account
    unfold cmdResetpass
    dsimp only
    split
    · exact keeps_refuse rfl _
    · refine (takenBy_tell ?_ _).keeps
      split
      · exact hunt.notices
      · split
        · exact hunt.notices
        · exact hunt.notices
  | some account, some code, none =>
    exact iff_of_true (keeps_refuse rfl _) (fun ⟨_, _, _, _, _, _, hc, _⟩ => absurd hc (by simp))
  | some account, some code, some password =>
    cases howner : (s.acc.ownerOfNick account).1 with
    | none =>
      have hfirst : (s.owner account).1 = none := howner
      refine iff_of_true ?_ ?_
      · simp only [cmdResetpass, hfirst]
        exact ((owner_untouched s account).trans (failRecord_untouched o _ _)).refuse _
      · rintro ⟨a', b', c', owner, ha, -, -, ho, -⟩
        rw [Option.some.inj ha, ho] at howner
        exact absurd howner (by simp)
    | some owner =>
      rw [cmdResetpass_coded cfg o s p u howner]
      refine not_congr ⟨fun ⟨hf, hr, hb⟩ =>
        ⟨account, code, password, owner, rfl, rfl, rfl, howner, hf, hr, hb⟩, ?_⟩
      rintro ⟨a', b', c', owner', ha, hb, hc, ho, hf, hr, hbad⟩
      obtain rfl := Option.some.inj ha
      obtain rfl := Option.some.inj hb
      obtain rfl := Option.some.inj hc
      obtain rfl := Option.some.inj (howner.symm.trans ho)
      exact ⟨hf, hr, hbad⟩

/-! ## 5. Every command -/

/-- Of two names that are not one up to case, a word is at most one. -/
theorem caseEq_other {cmd a b : Text} (h : caseEq cmd a = true) (hne : lower a ≠ lower b) :
    caseEq cmd b = false := by
  by_contra hb
  have hb' := Bool.eq_true_of_not_eq_false hb
  exact hne ((caseEq_iff.mp h).symm.trans (caseEq_iff.mp hb'))

theorem dispatch_resetpass {s : NickServ} {p : Nat} {u : NsUser} {text cmd : Text}
    {args : List Text} (hwords : commandWords text = cmd :: args) (hcmd : caseEq cmd "RESETPASS".toList = true) :
    s.dispatch cfg o p u text = s.cmdResetpass cfg o p u args[0]? args[1]? args[2]? := by
  have hother : ∀ name : Text, lower "RESETPASS".toList ≠ lower name →
      ¬ caseEq cmd name = true := by
    intro name hne
    rw [caseEq_other hcmd hne]
    exact Bool.false_ne_true
  unfold dispatch
  rw [hwords]
  dsimp only
  rw [if_neg (hother _ (by decide)), if_neg (hother _ (by decide)),
    if_neg (not_or.mpr ⟨hother _ (by decide), hother _ (by decide)⟩),
    if_neg (hother _ (by decide)), if_neg (hother _ (by decide)), if_neg (hother _ (by decide)),
    if_pos hcmd]

theorem keeps_ite {s x y : NickServ} {c : Prop} [Decidable c] (hx : c → KeepsRecords s x)
    (hy : ¬ c → KeepsRecords s y) : KeepsRecords s (if c then x else y) := by
  split
  · next h => exact hx h
  · next h => exact hy h

theorem dispatch_keeps (s : NickServ) (p : Nat) (u : NsUser) (text : Text)
    (h : ∀ cmd args, commandWords text = cmd :: args → caseEq cmd "RESETPASS".toList = false) :
    KeepsRecords s (s.dispatch cfg o p u text) := by
  unfold dispatch
  cases hwords : commandWords text with
  | nil => exact cmdHelp_keeps cfg s u
  | cons cmd args =>
    have hreset : ¬ caseEq cmd "RESETPASS".toList = true := by
      rw [h cmd args hwords]
      exact Bool.false_ne_true
    refine keeps_ite (fun _ => cmdHelp_keeps cfg s u) fun _ => ?_
    refine keeps_ite (fun _ => cmdRegister_keeps cfg o s u _ _) fun _ => ?_
    refine keeps_ite (fun _ => cmdIdentify_keeps o s u _ _) fun _ => ?_
    refine keeps_ite (fun _ => cmdLogout_keeps s u) fun _ => ?_
    refine keeps_ite (fun _ => cmdGhost_keeps s p u _) fun _ => ?_
    refine keeps_ite (fun _ => cmdRegain_keeps s p u _) fun _ => ?_
    refine keeps_ite (fun hc => absurd hc hreset) fun _ => ?_
    refine keeps_ite (fun _ => cmdAdmin_keeps cfg o s u _ _ _ _ _) fun _ => ?_
    refine keeps_ite (fun _ => cmdInfo_keeps cfg o s u _) fun _ => ?_
    refine keeps_ite (fun _ => cmdCert_keeps o s u _) fun _ => ?_
    refine keeps_ite (fun _ => cmdSetPassword_keeps o s u _ _) fun _ => ?_
    refine keeps_ite (fun _ => cmdSetEmail_keeps cfg o s u _) fun _ => ?_
    refine keeps_ite (fun _ => cmdVerify_keeps o s u _) fun _ => ?_
    refine keeps_ite (fun _ => cmdDrop_keeps o s u _) fun _ => ?_
    refine keeps_ite (fun _ => cmdGroup_keeps o s u) fun _ => ?_
    exact keeps_ite (fun _ => cmdUngroup_keeps o s u _) fun _ => keeps_refuse rfl _

/-- A message to NickServ that spends a code: a RESETPASS with the account, its code and a new
password. -/
def MessageSpends (s : NickServ) (target from_ text : Text) : Prop :=
  cfg.enabled = true ∧ caseEq target cfg.nick = true ∧ text.head? ≠ some '\x01' ∧
    ∃ p u cmd args, s.userByNick from_ = some (p, u) ∧ commandWords text = cmd :: args ∧
      caseEq cmd "RESETPASS".toList = true ∧ Spends o s u args[0]? args[1]? args[2]?

/-- **A refused command leaves every record as it was**, exactly if it is no RESETPASS that spends
a code on a password of the wrong length. The condition is on the message and on the state before
it. -/
theorem refused_unchanged_iff (s : NickServ) (target from_ text : Text) :
    KeepsRecords s (s.nsPrivmsg cfg o target from_ text) ↔
      ¬ MessageSpends cfg o s target from_ text := by
  have hsame : KeepsRecords s s := fun _ => rfl
  unfold nsPrivmsg
  split
  · next hoff =>
    refine iff_of_true hsame ?_
    rintro ⟨hon, htarget, -⟩
    rcases hoff with h | h
    · rw [hon] at h
      exact absurd h (by simp)
    · rw [htarget] at h
      exact absurd h (by simp)
  · next hon =>
    rw [not_or, Bool.not_eq_false, Bool.not_eq_false] at hon
    split
    · next huser =>
      refine iff_of_true hsame ?_
      rintro ⟨-, -, -, p, u, cmd, args, hu, -⟩
      rw [huser] at hu
      exact absurd hu (by simp)
    · next p u huser =>
      split
      · next hctcp =>
        refine iff_of_true ?_ (fun h => h.2.2.1 hctcp)
        split
        · exact (takenBy_tell rfl _).keeps
        · exact hsame
      · next hctcp =>
        by_cases hreset : ∃ cmd args, commandWords text = cmd :: args ∧
            caseEq cmd "RESETPASS".toList = true
        · obtain ⟨cmd, args, hwords, hcmd⟩ := hreset
          rw [dispatch_resetpass cfg o hwords hcmd, cmdResetpass_keeps_iff]
          refine not_congr ⟨fun h =>
            ⟨hon.1, hon.2, hctcp, p, u, cmd, args, huser, hwords, hcmd, h⟩, ?_⟩
          rintro ⟨-, -, -, p', u', cmd', args', hu, hw, -, hspends⟩
          rw [huser] at hu
          rw [hwords] at hw
          obtain ⟨rfl, rfl⟩ := Prod.mk.inj (Option.some.inj hu)
          obtain ⟨rfl, rfl⟩ := List.cons.inj hw
          exact hspends
        · refine iff_of_true (dispatch_keeps cfg o s p u text fun cmd args hwords => ?_) ?_
          · by_contra hcmd
            exact hreset ⟨cmd, args, hwords, Bool.eq_true_of_not_eq_false hcmd⟩
          · rintro ⟨-, -, -, p', u', cmd, args, -, hwords, hcmd, -⟩
            exact hreset ⟨cmd, args, hwords, hcmd⟩

/-- Bob, and Alice's account with a code that was mailed for it. -/
def resetDemo : NickServ where
  acc := loadAccounts [("alice".toList, [("name".toList, .text "Alice".toList),
    ("pw_hash".toList, .text "old".toList), ("reset_code".toList, .text "0123456789".toList),
    ("reset_expires".toList, .number 5000)])]
  users :=
    { next := 1
      heap := fun p => if p = 0 then some
        { NsUser.blank "1AA000001".toList with
          nick := "Bob".toList, cf := "bob".toList, ip := "192.0.2.1".toList } else none
      byUid := Index.empty.add "1AA000001".toList 0 false
      byNick := Index.empty.add "bob".toList 0 false }
  fails := List.replicate 256 ⟨[], 0, 0⟩
  notices := []

/-- A clock at 2000 s, and no scrypt. -/
def outsideDemo : Outside where
  nowMs := 2000000
  hashPassword := fun p => p
  verifyPassword := fun p h => decide (p = h)
  scramVerifier := fun _ => none
  resetCode := "aaaaaaaaaa".toList
  verifyCode := "bbbbbbbb".toList
  showDate := fun _ => []

def nickServDemo : NickServConfig :=
  ⟨true, "NickServ".toList, 0, "/usr/bin/mailcode".toList, [], []⟩

/-- The mailed code with a password of three letters: refused, and the code is spent. -/
theorem bad_password_spends_code :
    let s' := resetDemo.nsPrivmsg nickServDemo outsideDemo "NickServ".toList "Bob".toList
      "RESETPASS alice 0123456789 abc".toList
    s'.notices = [.refused badLengthText] ∧
      resetDemo.acc.textOf "alice".toList "reset_code".toList = some "0123456789".toList ∧
      s'.acc.textOf "alice".toList "reset_code".toList = none ∧
      s'.acc.data ≠ resetDemo.acc.data := by
  decide +kernel

end NickServ

end SekurIRCd
