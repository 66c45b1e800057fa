/-
# ChanServ's registrations

The store of the registered channels, who is identified for them, and every command that a user can
send, with the two that wait for an answer of the hub: REGISTER, until it is known that the sender
is an operator there, and SUCCESSOR CLAIM, until it is known who the sender is.

A command that changes something calls `check_password` first.  The password may be `*` for who is
logged in to the founder's account, and then a success is remembered for the sender's nick.

A record is the list of its items.  The index by name finds the first record of a key, and so does
`storeGet`.  INFO, HELP and CTCP only answer and are left out.
-/
import SekurIRCd.BanCache
import SekurIRCd.Services.AccountStore
import SekurIRCd.Services.Incarnation
import SekurIRCd.Services.Mlock
import Mathlib.Data.List.DropRight

namespace SekurIRCd

open CLib

/-! ## 1. Records

Everything that is stored is an item of a record, and read by key. What has the wrong type counts
as not there. -/

namespace JsonRecord

/-- `rec_str`. -/
def recStr (r : JsonRecord) (key : Text) : Text := (r.getText key).getD []

/-- `rec_bool`. -/
def recBool (r : JsonRecord) (key : Text) : Bool :=
  match r.get key with
  | some ⟨.bool b, _⟩ => b
  | _ => false

/-- `rec_num`. -/
def recNum (r : JsonRecord) (key : Text) : Int := (r.getNumber key).getD 0

/-- `rec_set_str`. -/
def recSetStr (r : JsonRecord) (key value : Text) : JsonRecord :=
  (r.delete key).add key (.text value)

/-- `rec_set_bool`. -/
def recSetBool (r : JsonRecord) (key : Text) (value : Bool) : JsonRecord :=
  (r.delete key).add key ⟨.bool value, []⟩

/-- `rec_set_num`. -/
def recSetNum (r : JsonRecord) (key : Text) (value : Int) : JsonRecord :=
  (r.delete key).add key (.number (JsonText.nearestDouble value))

/-- The children of the item of that key. -/
def children (r : JsonRecord) (key : Text) : List (Text × Option Text) :=
  ((r.get key).map JsonItem.child).getD []

/-- The children are replaced; the item is made if there is none. -/
def putChildren (r : JsonRecord) (key : Text) (kind : JsonKind)
    (child : List (Text × Option Text)) : JsonRecord :=
  if (r.get key).isSome then r.setChild key child else r.add key ⟨kind, child⟩

/-- What `apply_mlock` reads: the lock as it was stored, letter for letter. -/
def mlockRec (r : JsonRecord) : ChanRec where
  secureops := r.recBool "secureops".toList
  mlock := r.recStr "mlock".toList
  mlockOff := r.recStr "mlock_off".toList
  mlockKey := r.recStr "mlock_key".toList
  mlockLimit := r.recStr "mlock_limit".toList
  mlockFlood := r.recStr "mlock_flood".toList
  mlockJt := r.recStr "mlock_jt".toList
  mlockRedirect := r.recStr "mlock_redirect".toList

/-- What `cmd_set` stores of a mode lock. -/
def setMlock (r : JsonRecord) (m : Mlock) : JsonRecord :=
  ((((((r.recSetStr "mlock".toList m.on).recSetStr "mlock_off".toList m.off).recSetStr
    "mlock_key".toList m.key).recSetStr "mlock_limit".toList m.limit).recSetStr
    "mlock_flood".toList m.flood).recSetStr "mlock_jt".toList m.jt).recSetStr
    "mlock_redirect".toList m.redirect

end JsonRecord

/-- `normalize_mask`: a full mask, or nothing if there is no host. -/
def normalizeMask (mask : Text) (outsz : Nat) : Option Text :=
  if mask.head? = some '=' then some (clip outsz mask)
  else
    let host := ((strchr '@' mask).map Prod.snd).getD mask
    if host = [] ∨ host = ['*'] then none
    else if '!' ∈ mask then some (clip outsz mask)
    else if '@' ∈ mask then some (clip outsz ("*!".toList ++ mask))
    else some (clip outsz ("*!*@".toList ++ mask))

/-- Who is asked about: a nick with its host, its account and whether its ident is known. The hub
says so of everybody who joins, and of all members when it is asked. -/
abbrev Comer := MemberLine

/-- The account is this one. -/
def Comer.isAccount (m : Comer) (account : Text) : Bool :=
  decide (m.account ≠ []) && decide (m.account.head? ≠ some '*') && caseEq account m.account

/-- `entry_matches`. -/
def entryMatches (entry : Text) (m : Comer) : Bool :=
  match entry with
  | '=' :: account => Comer.isAccount m account
  | _ => ircMaskMatch m.nick m.user m.host entry m.ident

/-- `access_level_for`: the strongest level of the entries that match, the first of it. An entry is
a mask, or an account behind an equals sign. -/
def accessLevelFor (r : JsonRecord) (m : Comer) : Text :=
  ((r.children "access".toList).foldl
    (fun best e =>
      match e.2 with
      | some level =>
        if entryMatches e.1 m then
          match accessLevelRank level with
          | some rank => if ∀ b ∈ accessLevelRank best, b < rank then level else best
          | none => best
        else best
      | none => best)
    [])

/-- `akick_matches`: the ban for the first entry that matches. An account is banned as one, so that
a new host is no way around it. -/
def akickMatches (r : JsonRecord) (m : Comer) : Option Text :=
  ((r.children "akick".toList).findSome? fun e => e.2.filter fun entry => entryMatches entry m).map
    fun entry => match entry with
      | '=' :: account => clip 300 ("a:".toList ++ account)
      | _ => clip 300 entry

/-- The founder's account comes. -/
def isFounder (r : JsonRecord) (m : Comer) : Bool :=
  decide (r.recStr "founder".toList ≠ []) && Comer.isAccount m (r.recStr "founder".toList)

/-! ## 2. What is kept

Tables of fixed sizes stand beside the store: who is identified, who was given a rank, who failed
how often. -/

/-- `g_pending_register`. There is one place for it, since the hub is asked whether the user is an
operator of the channel before anything is stored. -/
structure PendingRegister where
  nick : Text
  chan : Text
  password : Text
  account : Text
  sentAt : Int
deriving DecidableEq

/-- `g_pending_claim`. The new password is kept until the hub has said who the claimant is. -/
structure PendingClaim where
  nick : Text
  chan : Text
  newPassword : Text
  sentAt : Int
deriving DecidableEq

/-- `g_store`, `g_store_dirty`, `g_identified`, `g_granted`, `g_fails`, the two requests that wait,
`g_inc`, the time of the last sweep, and the lines to the hub. -/
structure ChanRegistry where
  store : List (Text × JsonRecord)
  dirty : Bool
  identified : List (Text × Text × Int)
  granted : List (Text × Text)
  fails : List (Text × Int)
  register : Option PendingRegister
  claim : Option PendingClaim
  inc : Verdict
  lastSweep : Int
  lines : List Text

/-- `g_cfg`, and `crypto_verify_password`, of a password and a hash. Nothing is asked of this
function. -/
structure RegistryConfig where
  own : ServicesCfg
  founderMode : Char
  expireDays : Int
  verify : Text → Text → Bool

/-- The time, `g_from_account` and what `crypto_hash_password` makes of a password: all that a
command reads from outside the registry. -/
structure Moment where
  now : Int
  account : Text
  hashed : Text → Option Text

def failSlots : Nat := 64

def failCooldown : Int := 3

def maxIdentified : Nat := 256

def identifiedTtl : Int := 6 * 3600

def maxListEntries : Nat := 100

namespace ChanRegistry

variable (cfg : RegistryConfig) (o : Moment) (s : ChanRegistry)

/-- `queue_line`. -/
def send (line : Text) : ChanRegistry := { s with lines := s.lines ++ [line] }

/-- `reply`. -/
def reply (nick text : Text) : ChanRegistry :=
  s.send (ircBuild 700 [] (some cfg.own.source) "NOTICE".toList [nick] (some text)).text

def sendAll (lines : List Text) : ChanRegistry := { s with lines := s.lines ++ lines }

/-- `wire_part`. -/
def wirePart (chan : Text) : Text :=
  (ircBuild 300 [] (some cfg.own.source) "PART".toList [chan] none).text

/-- `wire_whoischan`. -/
def wireWhoischan (chan nick : Text) : Text :=
  (ircBuild 300 [] none "WHOISCHAN".toList [chan, nick] none).text

/-- `wire_whoisuser`. -/
def wireWhoisuser (nick : Text) : Text :=
  (ircBuild 300 [] none "WHOISUSER".toList [nick] none).text

/-- `wire_invite`. -/
def wireInvite (chan nick : Text) : Text :=
  (ircBuild 300 [] none "INVITE".toList [chan, nick] none).text

/-- `wire_unban`. -/
def wireUnban (chan nick : Text) : Text :=
  (ircBuild 300 [] none "UNBAN".toList [chan, nick] none).text

/-- `store_save`. -/
def storeSave : ChanRegistry := { s with dirty := true }

/-- The record of a key, the first if there were two. -/
def recordAt (key : Text) : Option JsonRecord := (s.store.find? fun e => e.1 == key).map Prod.snd

/-- `store_get`. -/
def storeGet (chan : Text) : Option JsonRecord := s.recordAt (chanFold chan)

/-- The record of a key is edited where it is. -/
def editAt (key : Text) (f : JsonRecord → JsonRecord) : List (Text × JsonRecord) →
    List (Text × JsonRecord)
  | [] => []
  | e :: l => if e.1 == key then (e.1, f e.2) :: l else e :: editAt key f l

def edit (chan : Text) (f : JsonRecord → JsonRecord) : ChanRegistry :=
  { s with store := editAt (chanFold chan) f s.store }

/-- `store_add`. -/
def storeAdd (chan : Text) (r : JsonRecord) : ChanRegistry :=
  { s with store := s.store ++ [(chanFold chan, r)] }

/-- `store_del`. -/
def storeDel (key : Text) : ChanRegistry :=
  { s with store := s.store.eraseP fun e => e.1 == key }

/-! ### Who is identified -/

/-- `prune_identified`. What is older than six hours goes, whenever the table is looked at. -/
def pruneIdentified : ChanRegistry :=
  { s with identified := s.identified.filter fun e => decide (o.now - e.2.2 < identifiedTtl) }

/-- `is_identified`, after `prune_identified`. -/
def isIdentified (chan nick : Text) : Bool :=
  (s.pruneIdentified o).identified.any fun e =>
    decide (e.1 = chanFold chan ∧ e.2.1 = ircCasefold 64 nick)

/-- `any_identified`, after `prune_identified`. -/
def anyIdentified (chan : Text) : Bool :=
  (s.pruneIdentified o).identified.any fun e => decide (e.1 = chanFold chan)

/-- `mark_identified`: a full table forgets its first entry. One who is in it already keeps the
time of then. -/
def markIdentified (chan nick : Text) : ChanRegistry :=
  let t := s.pruneIdentified o
  if s.isIdentified o chan nick then t
  else
    { t with
      identified :=
        (if maxIdentified ≤ t.identified.length then t.identified.tail else t.identified) ++
          [(chanFold chan, ircCasefold 64 nick, o.now)] }

/-- `clear_identified_chan` and `granted_clear_chan`. -/
def clearChan (chan : Text) : ChanRegistry :=
  { s with
    identified := s.identified.filter fun e => decide (e.1 ≠ chanFold chan)
    granted := s.granted.filter fun e => decide (e.1 ≠ chanFold chan) }

/-- `clear_identified_nick` and `granted_clear_nick`. -/
def clearNick (nick : Text) : ChanRegistry :=
  { s with
    identified := s.identified.filter fun e => decide (e.2.1 ≠ ircCasefold 64 nick)
    granted := s.granted.filter fun e => decide (e.2 ≠ ircCasefold 64 nick) }

/-- `rename_identified_nick` and `granted_rename`. Rights go with a user to a new nick, and keep
their age. -/
def renameNick (old new : Text) : ChanRegistry :=
  { s with
    identified := s.identified.map fun e =>
      if e.2.1 = ircCasefold 64 old then (e.1, ircCasefold 64 new, e.2.2) else e
    granted := s.granted.map fun e =>
      if e.2 = ircCasefold 64 old then (e.1, ircCasefold 64 new) else e }

/-- `granted_mark`. -/
def grantedMark (chan nick : Text) : ChanRegistry :=
  { s with granted := markSession s.granted (sessionKey chan nick) }

/-- `granted_unmark`. -/
def grantedUnmark (chan nick : Text) : ChanRegistry :=
  { s with granted := s.granted.filter fun e => decide (e ≠ sessionKey chan nick) }

/-! ### The password -/

/-- `fail_slot`, without its `create`: a slot of this nick that has not run out. The table is
small, and a slot that has run out may be taken by anyone. -/
def failSlot (nick : Text) : Option Nat :=
  s.fails.findIdx? fun f => decide (o.now < f.2 ∧ f.1 = ircCasefold 64 nick)

/-- The slot for a nick that has none: the first that has run out. -/
def freeSlot : Nat :=
  (s.fails.findIdx? fun f => decide (f.2 ≤ o.now)).getD (o.now % failSlots).toNat

/-- The password is right: it is the channel's, or it is `*` and the sender is the founder. The
founder is known by the account that the hub gave with the message. -/
def Opens (r : JsonRecord) (password : Text) : Prop :=
  (password = ['*'] ∧ r.recStr "founder".toList ≠ [] ∧ o.account ≠ [] ∧
    caseEq (r.recStr "founder".toList) o.account = true) ∨
  (r.recStr "pw_hash".toList ≠ [] ∧ cfg.verify password (r.recStr "pw_hash".toList) = true)

instance (r : JsonRecord) (password : Text) : Decidable (Opens cfg o r password) :=
  inferInstanceAs (Decidable (_ ∨ _))

/-- It was used within the last hour. The time is not stored more often than that. -/
def usedLately (r : JsonRecord) : Bool :=
  (r.getNumber "last_used".toList).any fun t => decide (o.now - t ≤ 3600)

/-- It is used now. -/
def touched (r : JsonRecord) : JsonRecord :=
  if usedLately o r then r else r.recSetNum "last_used".toList o.now

/-- `check_password`: whether it is right. A failure bars the nick for a few seconds, and a success
is remembered as the channel's last use. -/
def checkPassword (nick chan password : Text) : Bool × ChanRegistry :=
  match s.storeGet chan with
  | none => (false, s.reply cfg nick "That channel isn't registered.".toList)
  | some r =>
    if (s.failSlot o nick).isSome then
      (false, s.reply cfg nick
        ("Too many failed password attempts -- wait a few seconds and ".toList ++
          "try again.".toList))
    else if Opens cfg o r password then
      (true, { s.edit chan (touched o) with dirty := s.dirty || !usedLately o r })
    else
      (false, { s with
        fails := s.fails.set (s.freeSlot o) (ircCasefold 64 nick, o.now + failCooldown) }.reply cfg
          nick "Password incorrect.".toList)

/-- A command that needs the password. A wrong one is counted and answered, and nothing else is
done. -/
def guarded (nick chan password : Text) (body : ChanRegistry → ChanRegistry) : ChanRegistry :=
  match s.checkPassword cfg o nick chan password with
  | (true, s) => body s
  | (false, s) => s

/-- A flag of a channel's record. -/
def flag (chan key : Text) : Bool := (s.storeGet chan).any fun r => r.recBool key

/-- A text of a channel's record. -/
def field (chan key : Text) : Text := ((s.storeGet chan).map fun r => r.recStr key).getD []

/-! ## 3. The commands

Each command takes the words behind its verb. Those that change something go through
`check_password` and do nothing if it says no. -/

/-- What `strtok_r` has left behind the next word. -/
def afterWord (t : Text) : Text := ((t.dropWhile (· = ' ')).dropWhile (· ≠ ' ')).tail

/-- What is in front of the last space and what is behind it, in buffers of 300 and 128 bytes. -/
def lastWord (t : Text) : Text × Text :=
  if ' ' ∈ t then
    (clip 300 (t.rdropWhile (· ≠ ' ')).dropLast, clip 128 (t.rtakeWhile (· ≠ ' ')))
  else ([], clip 128 t)

def notRegistered : Text := "That channel isn't registered.".toList

/-- `cmd_register`. -/
def cmdRegister (nick args : Text) : ChanRegistry :=
  match strtok ' ' args with
  | chan :: password :: _ =>
    if ircValidChannel chan 50 = false then
      s.reply cfg nick "That doesn't look like a valid channel name.".toList
    else if (s.storeGet chan).isSome then
      s.reply cfg nick "That channel is already registered.".toList
    else if s.register.isSome then
      s.reply cfg nick "Busy processing another REGISTER -- try again shortly.".toList
    else
      { s with
        register := some
          ⟨clip 64 nick, clip 128 chan, clip 128 password, clip 64 o.account, o.now⟩ }.send
        (wireWhoischan chan nick)
  | _ => s.reply cfg nick "Syntax: REGISTER <#channel> <password>".toList

/-- The record of a new registration. The founder is the account of the one who registers, if there
is one, and the time the channel's own. -/
def newRecord (p : PendingRegister) (hash : Text) (ts : Int) : JsonRecord :=
  [("name".toList, .text p.chan), ("pw_hash".toList, .text hash)] ++
    (if p.account = [] then [] else [("founder".toList, .text p.account)]) ++
    [("registered_at".toList, .number (JsonText.nearestDouble o.now))] ++
    (if 0 < ts then [("ts".toList, .number (JsonText.nearestDouble ts))] else []) ++
    [("secureops".toList, ⟨.bool true, []⟩)]

/-- `finish_register`. The request is the one that waits, so the channel, the sender and the
password are those of the command. -/
def finishRegister (p : PendingRegister) (ts : Int) : ChanRegistry :=
  match o.hashed p.password with
  | none => s.reply cfg p.nick "Internal error hashing password -- try again.".toList
  | some hash =>
    (((s.storeAdd p.chan (newRecord o p hash ts)).storeSave.markIdentified o p.chan p.nick).send
      (wireMode cfg.own p.chan "+r".toList none)).reply cfg p.nick
        (clip 300 (p.chan ++ " is now registered. Use IDENTIFY to reclaim access ".toList ++
          "after a reconnect.".toList))

/-- The rank of a founder is given. -/
def giveFounder (chan nick : Text) : ChanRegistry :=
  s.send (wireMode cfg.own chan ['+', cfg.founderMode] (some nick))

/-- `cmd_identify`. -/
def cmdIdentify (nick args : Text) : ChanRegistry :=
  match strtok ' ' args with
  | chan :: password :: _ =>
    s.guarded cfg o nick chan password fun s =>
      ((s.markIdentified o chan nick).giveFounder cfg chan nick).reply cfg nick
        (if cfg.founderMode = 'q' then
          "Password correct -- you have been made channel owner.".toList
        else "Password correct -- you have been re-opped.".toList)
  | _ => s.reply cfg nick "Syntax: IDENTIFY <#channel> <password>".toList

/-- `cmd_drop`. -/
def cmdDrop (nick args : Text) : ChanRegistry :=
  match strtok ' ' args with
  | chan :: password :: _ =>
    s.guarded cfg o nick chan password fun s =>
      let t := s.send (wireMode cfg.own chan "-r".toList none)
      let t := if s.flag chan "guard".toList then t.send (wirePart cfg chan) else t
      ((t.storeDel (chanFold chan)).clearChan chan).storeSave.reply cfg nick
        "Channel registration dropped.".toList
  | _ => s.reply cfg nick "Syntax: DROP <#channel> <password>".toList

/-- `cmd_guard_join`. -/
def cmdGuardJoin (nick args : Text) : ChanRegistry :=
  match strtok ' ' args with
  | chan :: password :: _ =>
    s.guarded cfg o nick chan password fun s =>
      ((s.edit chan fun r => r.recSetBool "guard".toList true).storeSave.send
        (wireJoin cfg.own chan)).reply cfg nick
          ("ChanServ will now stay joined (rejoining after a restart) -- PART to ".toList ++
            "undo.".toList)
  | _ => s.reply cfg nick "Syntax: JOIN <#channel> <password>".toList

/-- `cmd_guard_part`. -/
def cmdGuardPart (nick args : Text) : ChanRegistry :=
  match strtok ' ' args with
  | chan :: password :: _ =>
    s.guarded cfg o nick chan password fun s =>
      ((s.edit chan fun r => r.recSetBool "guard".toList false).storeSave.send
        (wirePart cfg chan)).reply cfg nick "ChanServ has left the channel.".toList
  | _ => s.reply cfg nick "Syntax: PART <#channel> <password>".toList

/-- `cmd_setpass`. -/
def cmdSetpass (nick args : Text) : ChanRegistry :=
  match strtok ' ' args with
  | chan :: old :: new :: _ =>
    s.guarded cfg o nick chan old fun s =>
      match o.hashed new with
      | none => s.reply cfg nick "Internal error -- try again.".toList
      | some hash =>
        (s.edit chan fun r => r.recSetStr "pw_hash".toList hash).storeSave.reply cfg nick
          "Password changed.".toList
  | _ => s.reply cfg nick "Syntax: SETPASS <#channel> <old-password> <new-password>".toList

/-- The channel is joined and its members are asked for, under the name in the record. The hub
answers for each. -/
def watchMembers (chan : Text) : ChanRegistry :=
  (s.send (wireJoin cfg.own (s.field chan "name".toList))).send
    (ChanServ.wireSvcmembers (s.field chan "name".toList))

/-- `cmd_topiclock`. -/
def cmdTopiclock (nick args : Text) : ChanRegistry :=
  match strtok ' ' args with
  | chan :: setting :: password :: _ =>
    if caseEq setting "on".toList = false ∧ caseEq setting "off".toList = false then
      s.reply cfg nick "Syntax: TOPICLOCK <#channel> ON|OFF <password>".toList
    else
      s.guarded cfg o nick chan password fun s =>
        let on := caseEq setting "on".toList
        let t := s.edit chan fun r => r.recSetBool "topiclock".toList on
        let t := if on then
          (t.edit chan fun r => (r.recSetBool "guard".toList true).recSetStr "topic".toList
            []).watchMembers cfg chan
          else t
        t.storeSave.reply cfg nick (clip 200 ("TOPICLOCK for ".toList ++ chan ++
          " is now ".toList ++ if on then "ON".toList else "OFF".toList))
  | _ => s.reply cfg nick "Syntax: TOPICLOCK <#channel> ON|OFF <password>".toList

/-- The entry of this mask, whatever its case, is taken out of a list. -/
def withoutEntry (key : Text) (child : List (Text × Option Text)) : List (Text × Option Text) :=
  child.eraseP fun e => caseEq e.1 key

/-- An entry on the access list. -/
def addAccess (mask level : Text) (r : JsonRecord) : JsonRecord :=
  r.putChildren "access".toList .obj
    (withoutEntry mask (r.children "access".toList) ++ [(mask, some level)])

def needsHost (see : Text) : Text := "That mask needs a host -- see HELP ".toList ++ see

def accessSyntax : Text := "Syntax: ACCESS <#channel> ADD|DEL|LIST ...".toList

/-- ACCESS ADD. -/
def accessAdd (nick chan : Text) (words : List Text) : ChanRegistry :=
  match words with
  | mask :: level :: password :: _ =>
    let level := lower (level.take 1)
    if accessLevelRank level = none then
      s.reply cfg nick "Level must be one of: v h o a q".toList
    else
      s.guarded cfg o nick chan password fun s =>
        match normalizeMask mask 300 with
        | none =>
          s.reply cfg nick
            ("That mask needs a host (a nick alone never grants access) -- see HELP ".toList ++
              "ACCESS".toList)
        | some norm =>
          let child := ((s.storeGet chan).map fun r => r.children "access".toList).getD []
          if (child.any fun e => caseEq e.1 norm) = false ∧ maxListEntries ≤ child.length then
            s.reply cfg nick "That access list is full.".toList
          else
            ((s.edit chan (addAccess norm level)).storeSave.reply cfg nick
              (clip 300 (norm ++ " now has ".toList ++ level ++ " access on ".toList ++ chan))).send
                (ChanServ.wireSvcmembers chan)
  | _ =>
    s.reply cfg nick "Syntax: ACCESS <#channel> ADD <mask> <v|h|o|a|q> <password>".toList

/-- ACCESS DEL. -/
def accessDel (nick chan : Text) (words : List Text) : ChanRegistry :=
  match words with
  | mask :: password :: _ =>
    s.guarded cfg o nick chan password fun s =>
      match normalizeMask mask 300 with
      | none => s.reply cfg nick (needsHost "ACCESS".toList)
      | some norm =>
        let child := ((s.storeGet chan).map fun r => r.children "access".toList).getD []
        if child.any fun e => caseEq e.1 norm then
          let t := s.edit chan fun r => r.setChild "access".toList (withoutEntry norm child)
          (t.storeSave.reply cfg nick (clip 300 (norm ++ " removed from ".toList ++ chan ++
            "'s access list".toList))).send (ChanServ.wireSvcmembers chan)
        else
          s.storeSave.reply cfg nick (clip 300 (norm ++ " is not on ".toList ++ chan ++
            "'s access list".toList))
  | _ => s.reply cfg nick "Syntax: ACCESS <#channel> DEL <mask> <password>".toList

/-- ACCESS LIST. -/
def accessList (nick chan : Text) (r : JsonRecord) : ChanRegistry :=
  let child := r.children "access".toList
  if child = [] then s.reply cfg nick "No access entries for that channel.".toList
  else
    (child.filterMap fun e => e.2.map fun level => (e.1, level)).foldl
      (fun s e => s.reply cfg nick (clip 300 ("  ".toList ++ e.1 ++ " -- ".toList ++ e.2)))
      (s.reply cfg nick (clip 200 ("Access list for ".toList ++ chan ++ ":".toList)))

/-- `cmd_access`. -/
def cmdAccess (nick args : Text) : ChanRegistry :=
  match strtok ' ' args with
  | chan :: sub :: words =>
    match s.storeGet chan with
    | none => s.reply cfg nick notRegistered
    | some r =>
      if caseEq sub "LIST".toList then s.accessList cfg nick chan r
      else if caseEq sub "ADD".toList then s.accessAdd cfg o nick chan words
      else if caseEq sub "DEL".toList then s.accessDel cfg o nick chan words
      else s.reply cfg nick accessSyntax
  | _ => s.reply cfg nick accessSyntax

/-- The texts of the AKICK list of a channel. -/
def akicks (chan : Text) : List (Text × Option Text) :=
  ((s.storeGet chan).map fun r => r.children "akick".toList).getD []

/-- An entry of the AKICK list is this mask. -/
def isAkick (mask : Text) (e : Text × Option Text) : Bool := e.2.any fun m => caseEq m mask

/-- AKICK ADD. -/
def akickAdd (nick chan : Text) (words : List Text) : ChanRegistry :=
  match words with
  | mask :: password :: _ =>
    s.guarded cfg o nick chan password fun s =>
      match normalizeMask mask 300 with
      | none => s.reply cfg nick (needsHost "AKICK".toList)
      | some norm =>
        -- the list is there, even if it stays empty
        let t := s.edit chan fun r => r.putChildren "akick".toList .arr (r.children "akick".toList)
        if (s.akicks chan).any (isAkick norm) then
          t.reply cfg nick "That mask is already on the AKICK list.".toList
        else if maxListEntries ≤ (s.akicks chan).length then
          t.reply cfg nick "That AKICK list is full.".toList
        else
          ((t.edit chan fun r => r.putChildren "akick".toList .arr
            (r.children "akick".toList ++ [([], some norm)])).storeSave.reply cfg nick
              (clip 300 (norm ++ " added to ".toList ++ chan ++ "'s AKICK list".toList))).send
                (ChanServ.wireSvcmembers chan)
  | _ => s.reply cfg nick "Syntax: AKICK <#channel> ADD <mask> <password>".toList

/-- AKICK DEL. -/
def akickDel (nick chan : Text) (words : List Text) : ChanRegistry :=
  match words with
  | mask :: password :: _ =>
    s.guarded cfg o nick chan password fun s =>
      match normalizeMask mask 300 with
      | none => s.reply cfg nick (needsHost "AKICK".toList)
      | some norm =>
        let removed := (s.akicks chan).any (isAkick norm)
        (s.edit chan fun r => if removed then
          r.setChild "akick".toList ((r.children "akick".toList).eraseP (isAkick norm))
          else r).storeSave.reply cfg nick (clip 300 (norm ++
            (if removed then " removed from ".toList else " is not on ".toList) ++ chan ++
            "'s AKICK list".toList))
  | _ => s.reply cfg nick "Syntax: AKICK <#channel> DEL <mask> <password>".toList

/-- AKICK LIST. -/
def akickList (nick chan : Text) (r : JsonRecord) : ChanRegistry :=
  let child := r.children "akick".toList
  if child = [] then s.reply cfg nick "No AKICK entries for that channel.".toList
  else
    (child.filterMap Prod.snd).foldl
      (fun s m => s.reply cfg nick (clip 300 ("  ".toList ++ m)))
      (s.reply cfg nick (clip 200 ("AKICK list for ".toList ++ chan ++ ":".toList)))

def akickSyntax : Text := "Syntax: AKICK <#channel> ADD|DEL|LIST ...".toList

/-- `cmd_akick`. -/
def cmdAkick (nick args : Text) : ChanRegistry :=
  match strtok ' ' args with
  | chan :: sub :: words =>
    match s.storeGet chan with
    | none => s.reply cfg nick notRegistered
    | some r =>
      if caseEq sub "LIST".toList then s.akickList cfg nick chan r
      else if caseEq sub "ADD".toList then s.akickAdd cfg o nick chan words
      else if caseEq sub "DEL".toList then s.akickDel cfg o nick chan words
      else s.reply cfg nick akickSyntax
  | _ => s.reply cfg nick akickSyntax

def successorSyntax : Text :=
  "Syntax: SUCCESSOR <#channel> SET <mask> <password> | CLAIM <new-password>".toList

/-- SUCCESSOR SET. -/
def successorSet (nick chan : Text) (words : List Text) : ChanRegistry :=
  match words with
  | mask :: password :: _ =>
    s.guarded cfg o nick chan password fun s =>
      match normalizeMask mask 300 with
      | none => s.reply cfg nick (needsHost "SUCCESSOR".toList)
      | some norm =>
        (s.edit chan fun r => r.recSetStr "successor".toList norm).storeSave.reply cfg nick
          (clip 300 (norm ++ " may now CLAIM ".toList ++ chan ++
            " if nobody is IDENTIFY'd for it".toList))
  | _ => s.reply cfg nick "Syntax: SUCCESSOR <#channel> SET <mask> <password>".toList

def noSuccessor : Text := "That channel has no designated successor.".toList

def stillIdentified : Text :=
  "That channel still has an identified founder -- CLAIM refused.".toList

/-- SUCCESSOR CLAIM. -/
def successorClaim (nick chan : Text) (words : List Text) : ChanRegistry :=
  match words with
  | password :: _ =>
    if s.field chan "successor".toList = [] then s.reply cfg nick noSuccessor
    else
      let t := s.pruneIdentified o
      if s.anyIdentified o chan then t.reply cfg nick stillIdentified
      else if s.claim.isSome then
        t.reply cfg nick "Busy processing another CLAIM -- try again shortly.".toList
      else
        { t with
          claim := some ⟨clip 64 nick, clip 128 chan, clip 128 password, o.now⟩ }.send
          (wireWhoisuser nick)
  | _ => s.reply cfg nick "Syntax: SUCCESSOR <#channel> CLAIM <new-password>".toList

/-- `cmd_successor`. -/
def cmdSuccessor (nick args : Text) : ChanRegistry :=
  match strtok ' ' args with
  | chan :: sub :: words =>
    match s.storeGet chan with
    | none => s.reply cfg nick notRegistered
    | some _ =>
      if caseEq sub "SET".toList then s.successorSet cfg o nick chan words
      else if caseEq sub "CLAIM".toList then s.successorClaim cfg o nick chan words
      else s.reply cfg nick successorSyntax
  | _ => s.reply cfg nick successorSyntax

/-- `finish_claim`. -/
def finishClaim (p : PendingClaim) (m : Comer) : ChanRegistry :=
  match s.storeGet p.chan with
  | none => s.reply cfg p.nick notRegistered
  | some r =>
    let successor := r.recStr "successor".toList
    if successor = [] then s.reply cfg p.nick noSuccessor
    else
      let t := s.pruneIdentified o
      if s.anyIdentified o p.chan then t.reply cfg p.nick stillIdentified
      else if entryMatches successor m = false then
        t.reply cfg p.nick
          "Your current connection doesn't match the designated successor mask.".toList
      else
        match o.hashed p.newPassword with
        | none => t.reply cfg p.nick "Internal error hashing password -- try again.".toList
        | some hash =>
          ((((t.edit p.chan fun r => (r.recSetStr "pw_hash".toList hash).recSetStr
            "successor".toList []).storeSave.markIdentified o p.chan p.nick).giveFounder cfg p.chan
            p.nick).reply cfg p.nick (clip 300 ("You are now founder of ".toList ++ p.chan ++
              " -- SETPASS/ACCESS as needed".toList)))

def setUsage : Text :=
  "Syntax: SET <#channel> MLOCK|DESC|URL|ENTRYMSG|FOUNDER|PRIVATE|RESTRICTED|SECUREOPS ".toList ++
    "<value> <password>".toList

def setOptions : List Text :=
  ["mlock".toList, "desc".toList, "url".toList, "entrymsg".toList, "founder".toList,
    "private".toList, "restricted".toList, "secureops".toList]

/-- An option that is on or off. -/
def isFlagOption (opt : Text) : Bool :=
  opt == "private".toList || opt == "restricted".toList || opt == "secureops".toList

/-- What SET finds wrong with a value, before it asks for the password. -/
def setRefusal (option opt value : Text) : Option Text :=
  if opt = "mlock".toList then
    match mlockParse value with
    | .error e => some e
    | .ok _ => none
  else if isFlagOption opt then
    if caseEq value "on".toList || caseEq value "off".toList then none
    else some (clip 100 ("Syntax: SET <#channel> ".toList ++ option ++ " ON|OFF <password>".toList))
  else if opt = "founder".toList ∧ value ≠ [] ∧ value ≠ ['-'] ∧ ircValidUser value 30 = false then
    some "FOUNDER must be an account name (or - to clear it)".toList
  else none

/-- SET MLOCK. -/
def setMlockOption (chan value : Text) : ChanRegistry :=
  match mlockParse value with
  | .error _ => s
  | .ok m =>
    let t := s.edit chan fun r => r.setMlock m
    let t := if m = Mlock.none then t
      else (t.edit chan fun r => r.recSetBool "guard".toList true).send
        (wireJoin cfg.own (t.field chan "name".toList))
    match t.storeGet chan with
    | some r => t.storeSave.sendAll (applyMlock cfg.own r.mlockRec (r.recStr "name".toList))
    | none => t

/-- SET PRIVATE, RESTRICTED and SECUREOPS. -/
def setFlagOption (nick chan option opt : Text) (on : Bool) : ChanRegistry :=
  let t := s.edit chan fun r => r.recSetBool opt on
  let t := if on = true ∧ opt ≠ "private".toList then
    (t.edit chan fun r => r.recSetBool "guard".toList true).watchMembers cfg chan
  else t
  t.storeSave.reply cfg nick (clip 350 (option ++ " for ".toList ++ chan ++ " is now ".toList ++
    if on then "ON".toList else "OFF".toList))

/-- SET FOUNDER. -/
def setFounderOption (nick chan value : Text) : ChanRegistry :=
  let t := s.edit chan fun r => r.recSetStr "founder".toList (if value = ['-'] then [] else value)
  (t.storeSave.send (ChanServ.wireSvcmembers chan)).reply cfg nick (clip 350
    (if value ≠ [] ∧ value ≠ ['-'] then
      "Founder account for ".toList ++ chan ++ " is now ".toList ++ value ++
        " (use * as the password while logged in as it)".toList
    else "Founder account for ".toList ++ chan ++ " cleared".toList))

/-- What SET does when the password is right. -/
def setOption (nick chan option opt value : Text) : ChanRegistry :=
  if isFlagOption opt then
    s.setFlagOption cfg nick chan option opt (caseEq value "on".toList)
  else if opt = "founder".toList then s.setFounderOption cfg nick chan value
  else
    let t := if opt = "mlock".toList then s.setMlockOption cfg chan value
      else (s.edit chan fun r => r.recSetStr opt value).storeSave
    t.reply cfg nick (clip 350 (if value = [] then option ++ " for ".toList ++ chan ++
      " cleared".toList
    else option ++ " for ".toList ++ chan ++ " is now: '".toList ++ value ++ "'".toList))

/-- `cmd_set`. -/
def cmdSet (nick args : Text) : ChanRegistry :=
  match strtok ' ' args with
  | chan :: option :: _ =>
    if (s.storeGet chan).isNone then s.reply cfg nick notRegistered
    else
      let opt := lower (option.take 15)
      let rest := afterWord (afterWord args)
      if (setOptions.any fun x => x == opt) = false ∨ rest = [] then s.reply cfg nick setUsage
      else
        let value := (lastWord rest).1
        match setRefusal option opt value with
        | some text => s.reply cfg nick text
        | none =>
          s.guarded cfg o nick chan (lastWord rest).2 fun s =>
            s.setOption cfg nick chan option opt value
  | _ => s.reply cfg nick setUsage

/-- The loop of `cmd_list_channels`, after `shown` channels. -/
def listLoop (nick : Text) (pat : Option Text) : List (Text × JsonRecord) → Nat → ChanRegistry →
    Nat × ChanRegistry
  | [], shown, s => (shown, s)
  | e :: l, shown, s =>
    let name := e.2.recStr "name".toList
    if name = [] ∨ (pat.any fun p => !ircGlobMatch p name) = true then listLoop nick pat l shown s
    else
      let fa := e.2.recStr "founder".toList
      let owner := decide (fa ≠ []) && decide (o.account ≠ []) && caseEq fa o.account
      let mine := owner || s.isIdentified o name nick
      let s := if owner then s else s.pruneIdentified o
      if e.2.recBool "private".toList && !mine then listLoop nick pat l shown s
      else if 50 ≤ shown then
        (shown, s.reply cfg nick "(more channels match -- narrow the pattern)".toList)
      else
        let desc := e.2.recStr "desc".toList
        listLoop nick pat l (shown + 1) (s.reply cfg nick (clip 400 ("  ".toList ++ name ++
          (if desc = [] then [] else " -- ".toList) ++ desc)))

/-- `cmd_list_channels`. -/
def cmdListChannels (nick args : Text) : ChanRegistry :=
  let r := listLoop cfg o nick (strtok ' ' args).head? s.store 0 s
  r.2.reply cfg nick (clip 100 (decimal r.1 ++ " channel(s) listed.".toList))

/-- Who a command is about, and the password: `[nick] <password>`. -/
def targetOf (nick a : Text) (more : List Text) : Text × Text :=
  match more with
  | b :: _ => (a, b)
  | [] => (nick, a)

/-- `cmd_chanmode_one`. -/
def cmdChanmodeOne (nick args name : Text) (sign letter : Char) : ChanRegistry :=
  match strtok ' ' args with
  | chan :: a :: more =>
    let t := targetOf nick a more
    s.guarded cfg o nick chan t.2 fun s =>
      (s.send (wireMode cfg.own chan [sign, letter] (some t.1))).reply cfg nick
        (clip 200 (name ++ ": ".toList ++ [sign, letter, ' '] ++ t.1))
  | _ =>
    s.reply cfg nick (clip 100 ("Syntax: ".toList ++ name ++
      " <#channel> [nick] <password>".toList))

/-- `cmd_svc_invite`. -/
def cmdSvcInvite (nick args : Text) : ChanRegistry :=
  match strtok ' ' args with
  | chan :: a :: more =>
    let t := targetOf nick a more
    s.guarded cfg o nick chan t.2 fun s =>
      (s.send (wireInvite chan t.1)).reply cfg nick
        (clip 200 ("Invited ".toList ++ t.1 ++ " to ".toList ++ chan))
  | _ => s.reply cfg nick "Syntax: INVITE <#channel> [nick] <password>".toList

/-- `cmd_svc_unban`. -/
def cmdSvcUnban (nick args : Text) : ChanRegistry :=
  match strtok ' ' args with
  | chan :: a :: more =>
    let t := targetOf nick a more
    s.guarded cfg o nick chan t.2 fun s =>
      (s.send (wireUnban chan t.1)).reply cfg nick
        (clip 200 ("Removed any ban matching ".toList ++ t.1 ++ " on ".toList ++ chan))
  | _ => s.reply cfg nick "Syntax: UNBAN <#channel> [nick] <password>".toList

/-- `cmd_svc_kick`. -/
def cmdSvcKick (nick args : Text) : ChanRegistry :=
  match strtok ' ' args, afterWord (afterWord args) with
  | chan :: target :: _, c :: rest =>
    let r := lastWord (c :: rest)
    s.guarded cfg o nick chan r.2 fun s =>
      let reason := if r.1 = [] then "Kicked".toList else r.1
      (s.send (ChanServ.wireKick cfg.own chan target reason)).reply cfg nick
        (clip 300 ("Kicked ".toList ++ target ++ " from ".toList ++ chan))
  | _, _ => s.reply cfg nick "Syntax: KICK <#channel> <nick> [reason] <password>".toList

/-- `cmd_svc_topic`. -/
def cmdSvcTopic (nick args : Text) : ChanRegistry :=
  match strtok ' ' args, afterWord args with
  | chan :: _, c :: rest =>
    let r := lastWord (c :: rest)
    s.guarded cfg o nick chan r.2 fun s =>
      (s.send (wireTopic cfg.own chan r.1)).reply cfg nick
        (clip 300 ("Topic set on ".toList ++ chan))
  | _, _ => s.reply cfg nick "Syntax: TOPIC <#channel> <text> <password>".toList

/-- The commands that set a rank or take one away. -/
def chanmodeCommands : List (Text × Char × Char) :=
  [("OWNER".toList, '+', 'q'), ("DEOWNER".toList, '-', 'q'), ("ADMIN".toList, '+', 'a'),
    ("DEADMIN".toList, '-', 'a'), ("OP".toList, '+', 'o'), ("DEOP".toList, '-', 'o'),
    ("VOICE".toList, '+', 'v'), ("DEVOICE".toList, '-', 'v'), ("HALFOP".toList, '+', 'h'),
    ("DEHALFOP".toList, '-', 'h')]

/-- A command: the sender's nick, and what is behind the verb. -/
abbrev Command := RegistryConfig → Moment → ChanRegistry → Text → Text → ChanRegistry

/-- The commands. -/
def commands : List (Text × Command) :=
  [("REGISTER".toList, cmdRegister), ("IDENTIFY".toList, cmdIdentify), ("DROP".toList, cmdDrop),
    ("JOIN".toList, cmdGuardJoin), ("PART".toList, cmdGuardPart), ("SETPASS".toList, cmdSetpass),
    ("TOPICLOCK".toList, cmdTopiclock), ("ACCESS".toList, cmdAccess), ("AKICK".toList, cmdAkick),
    ("SUCCESSOR".toList, cmdSuccessor), ("SET".toList, cmdSet),
    ("LIST".toList, cmdListChannels)] ++
  (chanmodeCommands.map fun c =>
    (c.1, fun cfg o s nick args => s.cmdChanmodeOne cfg o nick args c.1 c.2.1 c.2.2)) ++
  [("INVITE".toList, cmdSvcInvite), ("UNBAN".toList, cmdSvcUnban), ("KICK".toList, cmdSvcKick),
    ("TOPIC".toList, cmdSvcTopic)]

/-- `dispatch_privmsg`. -/
def dispatchPrivmsg (nick text : Text) : ChanRegistry :=
  if text.head? = some '\x01' then s
  else
    match strtok ' ' (clip 512 text) with
    | [] => s
    | verb :: _ =>
      if caseEq verb "INFO".toList || caseEq verb "HELP".toList then s
      else
        match commands.find? fun c => caseEq verb c.1 with
        | some c => c.2 cfg o s nick (afterWord (clip 512 text))
        | none => s.reply cfg nick "Unknown command. Try HELP.".toList

/-! ## 4. What the hub tells

The hub tells of channels and members, and answers questions. Two commands go on with
its answers. -/

/-- A member is banned and kicked. -/
def banAndKick (chan ban nick reason : Text) : ChanRegistry :=
  (s.send (wireMode cfg.own chan "+b".toList (some ban))).send
    (ChanServ.wireKick cfg.own chan nick reason)

def akickReason : Text := "Banned from this channel (AKICK)".toList

def restrictedReason : Text := "This channel is restricted to its access list".toList

/-- What `handle_svcjoin` does for who may stay. -/
def admitted (chan : Text) (m : Comer) (r : JsonRecord) : ChanRegistry :=
  let level := accessLevelFor r m
  let s := if r.recStr "entrymsg".toList = [] then s
    else s.reply cfg m.nick (r.recStr "entrymsg".toList)
  if isFounder r m then
    ((s.markIdentified o chan m.nick).grantedMark chan m.nick).giveFounder cfg chan m.nick
  else if level = [] then s
  else
    (s.send (wireMode cfg.own chan (clip 4 ('+' :: level)) (some m.nick))).grantedMark chan m.nick

/-- `handle_svcjoin`. -/
def handleSvcjoin (chan : Text) (m : Comer) : ChanRegistry :=
  match s.storeGet chan with
  | none => s
  | some r =>
    match akickMatches r m with
    | some ban => s.banAndKick cfg chan ban m.nick akickReason
    | none =>
      if r.recBool "restricted".toList && !isFounder r m && (accessLevelFor r m).isEmpty then
        let t := s.pruneIdentified o
        if s.isIdentified o chan m.nick then t.admitted cfg o chan m r
        else t.banAndKick cfg chan (clip 300 ("*!*@".toList ++ m.host)) m.nick restrictedReason
      else s.admitted cfg o chan m r

/-- `judge_incarnation`. -/
def judgeIncarnation (chan : Text) (r : JsonRecord) (ts : Int) (hint restore : Bool) :
    Bool × ChanRegistry :=
  if 0 < ts ∧ s.inc.ts = ts ∧ s.inc.chan = chanFold chan then (s.inc.takeover, s)
  else
    let known := r.recNum "ts".toList
    let takeover := if 0 < known then decide (known < ts) else hint
    let s := if 0 < ts ∧ ts ≠ known then
      (s.edit chan fun r => r.recSetNum "ts".toList ts).storeSave else s
    let s := { s with inc := ⟨chanFold chan, ts, takeover⟩ }
    let locked := r.recStr "topic".toList
    (takeover,
      if takeover then
        s.sendAll (ChanServ.wireSvcreset chan ::
          ((if restore then applyMlock cfg.own r.mlockRec chan else []) ++
            if r.recBool "topiclock".toList = true ∧ locked ≠ [] then
              [wireTopic cfg.own chan locked] else []))
      else s)

/-- `is_takeover`. -/
def isTakeover (chan : Text) : Bool := s.inc.takeover && decide (s.inc.chan = chanFold chan)

/-- `enforce_member`. -/
def enforceMember (chan : Text) (m : Comer) (takeover : Bool) : ChanRegistry :=
  match s.storeGet chan with
  | none => s
  | some r =>
    if caseEq m.nick cfg.own.nick then s
    else match akickMatches r m with
    | some ban => s.banAndKick cfg chan ban m.nick akickReason
    | none =>
      if isFounder r m then
        let s := if cfg.founderMode ∈ m.ranks then s else s.giveFounder cfg chan m.nick
        (s.markIdentified o chan m.nick).grantedMark chan m.nick
      else
        let t := s.pruneIdentified o
        if s.isIdentified o chan m.nick then t
        else
          let level := accessLevelFor r m
          if r.recBool "restricted".toList = true ∧ level = [] ∧
              (takeover = true ∨ ∀ c ∈ "qao".toList, c ∉ m.ranks) then
            t.banAndKick cfg chan (clip 300 ("*!*@".toList ++ m.host)) m.nick restrictedReason
          else
            let off := ChanServ.unbacked m (accessLevelRank level)
              (takeover || r.recBool "secureops".toList)
              (s.granted.any fun e => decide (e = sessionKey chan m.nick))
            let on := level.head?.toList.filter fun c => decide (c ∉ m.ranks)
            let modes := (if off = [] then [] else '-' :: off) ++
              (if on = [] then [] else '+' :: on)
            let args := ((off ++ on).map fun _ => m.nick).foldl
              (fun a v => strncat 512 (strncat 512 a (if a = [] then [] else [' '])) v) []
            let t := if modes = [] then t else t.send (wireModeArgs cfg.own chan modes args)
            if level = [] then t.grantedUnmark chan m.nick else t.grantedMark chan m.nick

/-- `handle_svcnew`, `handle_svcsync` and `handle_svcmember`. -/
def handleHub : HubLine → ChanRegistry
  | .svcnew chan stamp =>
    match s.storeGet chan with
    | none => s
    | some r =>
      let s := (s.judgeIncarnation cfg chan r (stamp.elim 0 Prod.fst) (stamp.elim true Prod.snd)
        false).2
      let s := if r.recBool "guard".toList then s.send (wireJoin cfg.own chan) else s
      s.sendAll (wireMode cfg.own chan "+r".toList none :: applyMlock cfg.own r.mlockRec chan ++
        [ChanServ.wireSvcmembers chan])
  | .svcsync chan m merge => s.enforceMember cfg o chan m (!merge && s.isTakeover chan)
  | .svcmember chan m stamp =>
    match stamp, s.storeGet chan with
    | some (ts, hint), some r =>
      let j := s.judgeIncarnation cfg chan r ts hint true
      j.2.enforceMember cfg o chan m j.1
    | _, _ => s.enforceMember cfg o chan m false

/-- TOPIC: the locked topic is put back, unless it is ChanServ's own or there was none. -/
def handleTopic (chan setter topic : Text) : ChanRegistry :=
  match s.storeGet chan with
  | none => s
  | some r =>
    let locked := r.recStr "topic".toList
    if r.recBool "topiclock".toList = false ∨ locked = topic then s
    else if caseEq setter cfg.own.nick = true ∨ locked = [] then
      (s.edit chan fun r => r.recSetStr "topic".toList topic).storeSave
    else s.send (wireTopic cfg.own chan locked)

/-- SVCTOPIC: the live topic becomes the locked one, if there is none. -/
def handleSvctopic (chan topic : Text) : ChanRegistry :=
  match s.storeGet chan with
  | none => s
  | some r =>
    if r.recBool "topiclock".toList = true ∧ r.recStr "topic".toList = [] then
      (s.edit chan fun r => r.recSetStr "topic".toList topic).storeSave
    else s

/-- KICK of ChanServ itself. -/
def handleKick (chan nick : Text) : ChanRegistry :=
  if caseEq nick cfg.own.nick = true ∧ s.flag chan "guard".toList = true then
    s.send (wireJoin cfg.own chan)
  else s

/-- WHOISCHANREPLY: an answer to another question is ignored. -/
def whoischanReply (chan nick flag : Text) (ts : Int) : ChanRegistry :=
  match s.register with
  | none => s
  | some p =>
    if chanFold chan ≠ chanFold p.chan ∨ caseEq nick p.nick = false then s
    else
      let s := { s with register := none }
      if flag = ['o'] then s.finishRegister cfg o p ts
      else s.reply cfg p.nick "You must be a channel operator there to register it.".toList

/-- WHOISUSERREPLY. -/
def whoisuserReply (nick user host account : Text) (ident : Bool) : ChanRegistry :=
  match s.claim with
  | none => s
  | some p =>
    if caseEq nick p.nick = false then s
    else
      let s := { s with claim := none }
      if user = ['*'] then s.reply cfg p.nick "You're not online anymore.".toList
      else s.finishClaim cfg o p ⟨p.nick, user, host, account, ident, []⟩

/-! ## 5. Once a second -/

/-- Nobody has authenticated for so many days. -/
def expired (r : JsonRecord) : Bool :=
  match r.getNumber "last_used".toList with
  | some t => decide (cfg.expireDays * 86400 < o.now - t)
  | none => false

/-- A registration expires. -/
def expireOne (key : Text) : ChanRegistry :=
  match s.recordAt key with
  | none => s
  | some r =>
    let name := r.recStr "name".toList
    let chan := clip 128 (if name = [] then key else name)
    let t := s.send (wireMode cfg.own chan "-r".toList none)
    let t := if r.recBool "guard".toList then t.send (wirePart cfg chan) else t
    ((t.clearChan chan).storeDel key).storeSave

/-- The clock of a record that has none starts now. -/
def startClock (r : JsonRecord) : JsonRecord :=
  if (r.getNumber "last_used".toList).isSome then r
  else r.add "last_used".toList (.number (JsonText.nearestDouble o.now))

/-- `expire_sweep`. -/
def expireSweep : ChanRegistry :=
  if cfg.expireDays ≤ 0 ∨ o.now - s.lastSweep < 3600 then s
  else
    let dead := ((s.store.filter fun e => expired cfg o e.2).take 32).map fun e => clip 128 e.1
    let t := { s with
      store := s.store.map fun e => (e.1, startClock o e.2)
      dirty := s.dirty || s.store.any fun e => (e.2.getNumber "last_used".toList).isNone
      lastSweep := o.now }
    dead.foldl (fun s key => s.expireOne cfg key) t

/-- A REGISTER that waited for more than five seconds is given up. -/
def giveUpRegister : ChanRegistry :=
  match s.register with
  | some p =>
    if 5 < o.now - p.sentAt then
      { s with register := none }.reply cfg p.nick
        "Timed out waiting for the server -- try REGISTER again.".toList
    else s
  | none => s

/-- A CLAIM that waited for more than five seconds is given up. -/
def giveUpClaim : ChanRegistry :=
  match s.claim with
  | some p =>
    if 5 < o.now - p.sentAt then
      { s with claim := none }.reply cfg p.nick
        "Timed out waiting for the server -- try CLAIM again.".toList
    else s
  | none => s

/-- At the start, with what the store's file held. Nobody is identified, and nobody has failed. -/
def start (store : List (Text × JsonRecord)) : ChanRegistry :=
  ⟨store, false, [], [], List.replicate failSlots ([], 0), none, none, Verdict.none, 0, []⟩

/-- `run_session`, when the link comes up. Who was identified is forgotten, as quits and new nicks
may have been missed. -/
def sessionStart : ChanRegistry :=
  { s with identified := [], granted := [], inc := Verdict.none, lines := [] }

/-! ## 6. Runs -/

/-- What happens to ChanServ: messages of users, answers and reports of the hub, the clock, and the
end of a save or a session. -/
inductive Event
  | privmsg (o : Moment) (nick text : Text)
  | whoischanReply (o : Moment) (chan nick flag : Text) (ts : Int)
  | whoisuserReply (o : Moment) (nick user host account : Text) (ident : Bool)
  | svcjoin (o : Moment) (chan : Text) (m : Comer)
  | hub (o : Moment) (line : HubLine)
  | topic (chan setter topic : Text)
  | svctopic (chan topic : Text)
  | kick (chan nick : Text)
  | quit (nick : Text)
  | nick (old new : Text)
  | tick (o : Moment)
  | saved
  | session

def step : Event → ChanRegistry
  | .privmsg o nick text => s.dispatchPrivmsg cfg o nick text
  | .whoischanReply o chan nick flag ts => s.whoischanReply cfg o chan nick flag ts
  | .whoisuserReply o nick user host account ident =>
    s.whoisuserReply cfg o nick user host account ident
  | .svcjoin o chan m => s.handleSvcjoin cfg o chan m
  | .hub o line => s.handleHub cfg o line
  | .topic chan setter topic => s.handleTopic cfg chan setter topic
  | .svctopic chan topic => s.handleSvctopic chan topic
  | .kick chan nick => s.handleKick cfg chan nick
  | .quit nick => s.clearNick nick
  | .nick old new => s.renameNick old new
  | .tick o => ((s.expireSweep cfg o).giveUpRegister cfg o).giveUpClaim cfg o
  | .saved => { s with dirty := false }
  | .session => s.sessionStart

/-- A run. -/
def run (s : ChanRegistry) (events : List Event) : ChanRegistry := events.foldl (step cfg) s

@[simp] theorem run_nil : run cfg s [] = s := rfl

@[simp] theorem run_cons (e : Event) (events : List Event) :
    run cfg s (e :: events) = run cfg (s.step cfg e) events := rfl

end ChanRegistry

end SekurIRCd
