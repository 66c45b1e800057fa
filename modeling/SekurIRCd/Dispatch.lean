/-
# Command dispatch

Every line of a client names a command, and `dispatch_inner` decides whether its handler runs: by
whether the client has registered, is shunned, is an operator, and of which kind.  The table is
searched by halves over the places in the order of their names.  `handler_runs_iff` says which
handler runs, as one looks it up in the table itself.

`STATS m` counts what has run.  Where a command is counted is remembered in one array for all
servers of the process, while every server has its own counts; a place that is out of date is found
out by the name that stands there.  `counts_exact`: the counts are right on every server.

What the handlers do is elsewhere; labels are in `Net/Labelled`.
-/
import SekurIRCd.Lib.BinarySearch
import SekurIRCd.Lib.CString
import Mathlib.Data.Char
import Mathlib.Data.List.Induction
import Mathlib.Data.List.Lex

namespace SekurIRCd

open CLib

/-! ## 1. The table

The entries are in the order of the source, and so are the lists of names that some decisions are
made by. -/

/-- The functions that `DISPATCH` points to. -/
inductive Handler
  | cmdNick | cmdUser | cmdPass | cmdWebirc | cmdTagmsg | cmdRename | cmdBatch | cmdMarkread
  | cmdRedact | cmdAccept | cmdChathistory | cmdUserip | cmdShun | cmdUnshun | cmdEline
  | cmdUneline | cmdGlobops | cmdLocops | cmdTestline | cmdChgident | cmdSanick | cmdCap
  | cmdIsupport | cmdPing | cmdPong | cmdQuit | cmdAuthenticate | cmdRegister | cmdCert
  | cmdServiceAlias | cmdJoin | cmdPart | cmdTopic | cmdNames | cmdList | cmdKick | cmdMode
  | cmdInvite | cmdKnock | cmdLinks | cmdMap | cmdSajoin | cmdSapart | cmdSamode | cmdPrivmsg
  | cmdNotice | cmdWhois | cmdWho | cmdWhowas | cmdAway | cmdSetname | cmdUserhost | cmdIson
  | cmdMonitor | cmdWatch | cmdSilence | cmdGlob | cmdOper | cmdKill | cmdWallops | cmdRehash
  | cmdDie | cmdRestart | cmdVhost | cmdChghost | cmdSethost | cmdKline | cmdGline | cmdZline
  | cmdSpamfilter | cmdProtect | cmdUnkline | cmdUngline | cmdUnzline | cmdSquit | cmdConnect
  | cmdStats | cmdTrace | cmdServlist | cmdSquery | cmdVersion | cmdTime | cmdInfo | cmdHelp
  | cmdMotd | cmdRules | cmdOpermotd | cmdLusers | cmdUptime | cmdAdmin
deriving DecidableEq

/-- `cmd_entry_t`. -/
structure CmdEntry where
  name : Text
  handler : Handler
  minParams : Nat
  needsRegistration : Bool
  operOnly : Bool

/-- `DISPATCH`. -/
def dispatchTable : List CmdEntry := [
  ⟨"NICK".toList, .cmdNick, 0, false, false⟩,
  ⟨"USER".toList, .cmdUser, 4, false, false⟩,
  ⟨"PASS".toList, .cmdPass, 0, false, false⟩,
  ⟨"WEBIRC".toList, .cmdWebirc, 4, false, false⟩,
  ⟨"TAGMSG".toList, .cmdTagmsg, 1, true, false⟩,
  ⟨"RENAME".toList, .cmdRename, 2, true, false⟩,
  ⟨"BATCH".toList, .cmdBatch, 1, true, false⟩,
  ⟨"MARKREAD".toList, .cmdMarkread, 1, true, false⟩,
  ⟨"REDACT".toList, .cmdRedact, 2, true, false⟩,
  ⟨"ACCEPT".toList, .cmdAccept, 0, true, false⟩,
  ⟨"CHATHISTORY".toList, .cmdChathistory, 2, true, false⟩,
  ⟨"USERIP".toList, .cmdUserip, 1, true, true⟩,
  ⟨"SHUN".toList, .cmdShun, 0, true, true⟩,
  ⟨"UNSHUN".toList, .cmdUnshun, 1, true, true⟩,
  ⟨"ELINE".toList, .cmdEline, 0, true, true⟩,
  ⟨"UNELINE".toList, .cmdUneline, 1, true, true⟩,
  ⟨"GLOBOPS".toList, .cmdGlobops, 1, true, true⟩,
  ⟨"OPERWALL".toList, .cmdGlobops, 1, true, true⟩,
  ⟨"LOCOPS".toList, .cmdLocops, 1, true, true⟩,
  ⟨"TESTLINE".toList, .cmdTestline, 1, true, true⟩,
  ⟨"CHGIDENT".toList, .cmdChgident, 2, true, true⟩,
  ⟨"SANICK".toList, .cmdSanick, 2, true, true⟩,
  ⟨"CAP".toList, .cmdCap, 1, false, false⟩,
  ⟨"ISUPPORT".toList, .cmdIsupport, 0, false, false⟩,
  ⟨"PING".toList, .cmdPing, 0, false, false⟩,
  ⟨"PONG".toList, .cmdPong, 0, false, false⟩,
  ⟨"QUIT".toList, .cmdQuit, 0, false, false⟩,
  ⟨"AUTHENTICATE".toList, .cmdAuthenticate, 1, false, false⟩,
  ⟨"REGISTER".toList, .cmdRegister, 2, true, false⟩,
  ⟨"CERT".toList, .cmdCert, 1, true, false⟩,
  ⟨"NS".toList, .cmdServiceAlias, 1, true, false⟩,
  ⟨"NICKSERV".toList, .cmdServiceAlias, 1, true, false⟩,
  ⟨"CS".toList, .cmdServiceAlias, 1, true, false⟩,
  ⟨"CHANSERV".toList, .cmdServiceAlias, 1, true, false⟩,
  ⟨"JOIN".toList, .cmdJoin, 1, true, false⟩,
  ⟨"PART".toList, .cmdPart, 1, true, false⟩,
  ⟨"TOPIC".toList, .cmdTopic, 1, true, false⟩,
  ⟨"NAMES".toList, .cmdNames, 0, true, false⟩,
  ⟨"LIST".toList, .cmdList, 0, true, false⟩,
  ⟨"KICK".toList, .cmdKick, 2, true, false⟩,
  ⟨"MODE".toList, .cmdMode, 1, true, false⟩,
  ⟨"INVITE".toList, .cmdInvite, 2, true, false⟩,
  ⟨"KNOCK".toList, .cmdKnock, 1, true, false⟩,
  ⟨"LINKS".toList, .cmdLinks, 0, true, false⟩,
  ⟨"MAP".toList, .cmdMap, 0, true, false⟩,
  ⟨"SAJOIN".toList, .cmdSajoin, 2, true, true⟩,
  ⟨"SAPART".toList, .cmdSapart, 2, true, true⟩,
  ⟨"SAMODE".toList, .cmdSamode, 2, true, true⟩,
  ⟨"PRIVMSG".toList, .cmdPrivmsg, 1, true, false⟩,
  ⟨"NOTICE".toList, .cmdNotice, 1, true, false⟩,
  ⟨"WHOIS".toList, .cmdWhois, 1, true, false⟩,
  ⟨"WHO".toList, .cmdWho, 0, true, false⟩,
  ⟨"WHOWAS".toList, .cmdWhowas, 1, true, false⟩,
  ⟨"AWAY".toList, .cmdAway, 0, true, false⟩,
  ⟨"SETNAME".toList, .cmdSetname, 1, true, false⟩,
  ⟨"USERHOST".toList, .cmdUserhost, 1, true, false⟩,
  ⟨"ISON".toList, .cmdIson, 1, true, false⟩,
  ⟨"MONITOR".toList, .cmdMonitor, 1, true, false⟩,
  ⟨"WATCH".toList, .cmdWatch, 1, true, false⟩,
  ⟨"SILENCE".toList, .cmdSilence, 0, true, false⟩,
  ⟨"GLOB".toList, .cmdGlob, 1, true, false⟩,
  ⟨"OPER".toList, .cmdOper, 2, true, false⟩,
  ⟨"KILL".toList, .cmdKill, 1, true, true⟩,
  ⟨"WALLOPS".toList, .cmdWallops, 1, true, true⟩,
  ⟨"REHASH".toList, .cmdRehash, 0, true, true⟩,
  ⟨"DIE".toList, .cmdDie, 0, true, true⟩,
  ⟨"RESTART".toList, .cmdRestart, 0, true, true⟩,
  ⟨"VHOST".toList, .cmdVhost, 0, true, false⟩,
  ⟨"CHGHOST".toList, .cmdChghost, 2, true, true⟩,
  ⟨"SETHOST".toList, .cmdSethost, 1, true, true⟩,
  ⟨"KLINE".toList, .cmdKline, 0, true, true⟩,
  ⟨"GLINE".toList, .cmdGline, 0, true, true⟩,
  ⟨"ZLINE".toList, .cmdZline, 0, true, true⟩,
  ⟨"SPAMFILTER".toList, .cmdSpamfilter, 0, true, true⟩,
  ⟨"PROTECT".toList, .cmdProtect, 0, true, true⟩,
  ⟨"UNKLINE".toList, .cmdUnkline, 1, true, true⟩,
  ⟨"UNGLINE".toList, .cmdUngline, 1, true, true⟩,
  ⟨"UNZLINE".toList, .cmdUnzline, 1, true, true⟩,
  ⟨"SQUIT".toList, .cmdSquit, 1, true, true⟩,
  ⟨"CONNECT".toList, .cmdConnect, 0, true, true⟩,
  ⟨"STATS".toList, .cmdStats, 0, true, false⟩,
  ⟨"TRACE".toList, .cmdTrace, 0, true, false⟩,
  ⟨"SERVLIST".toList, .cmdServlist, 0, true, false⟩,
  ⟨"SQUERY".toList, .cmdSquery, 2, true, false⟩,
  ⟨"VERSION".toList, .cmdVersion, 0, true, false⟩,
  ⟨"TIME".toList, .cmdTime, 0, true, false⟩,
  ⟨"INFO".toList, .cmdInfo, 0, true, false⟩,
  ⟨"HELP".toList, .cmdHelp, 0, true, false⟩,
  ⟨"MOTD".toList, .cmdMotd, 0, true, false⟩,
  ⟨"RULES".toList, .cmdRules, 0, true, false⟩,
  ⟨"OPERMOTD".toList, .cmdOpermotd, 0, true, true⟩,
  ⟨"LUSERS".toList, .cmdLusers, 0, true, false⟩,
  ⟨"UPTIME".toList, .cmdUptime, 0, true, false⟩,
  ⟨"ADMIN".toList, .cmdAdmin, 0, true, false⟩]

/-- `REGISTRATION_COMMANDS`. -/
def registrationCommands : List Text := [
  "NICK".toList, "USER".toList, "PASS".toList, "CAP".toList, "PING".toList, "PONG".toList,
  "QUIT".toList, "AUTHENTICATE".toList, "WEBIRC".toList, "AWAY".toList, "ISUPPORT".toList]

/-- `is_registration_command`. -/
def isRegistrationCommand (cmd : Text) : Bool := registrationCommands.any (caseEq cmd)

/-- What a shunned client may still say. -/
def shunAllowed : List Text := [
  "PING".toList, "PONG".toList, "QUIT".toList, "PART".toList, "MOTD".toList, "VERSION".toList,
  "TIME".toList, "LUSERS".toList, "HELP".toList, "ADMIN".toList, "INFO".toList, "CAP".toList,
  "RULES".toList]

namespace OperPriv

def kill : Nat := 0x01
def kline : Nat := 0x02
def sa : Nat := 0x04
def host : Nat := 0x08
def wallops : Nat := 0x10
def rehash : Nat := 0x20
def die : Nat := 0x40
def link : Nat := 0x80
def account : Nat := 0x200

/-- `OPER_PRIV_ALL`. -/
def all : Nat := 0xff ||| account

end OperPriv

/-- The classes of commands that only some operators may use. -/
def commandPrivs : List (Text × Nat) := [
  ("KILL".toList, OperPriv.kill), ("KLINE".toList, OperPriv.kline),
  ("SHUN".toList, OperPriv.kline), ("UNSHUN".toList, OperPriv.kline),
  ("ELINE".toList, OperPriv.kline), ("UNELINE".toList, OperPriv.kline),
  ("GLINE".toList, OperPriv.kline), ("ZLINE".toList, OperPriv.kline),
  ("UNKLINE".toList, OperPriv.kline), ("UNGLINE".toList, OperPriv.kline),
  ("UNZLINE".toList, OperPriv.kline), ("SPAMFILTER".toList, OperPriv.kline),
  ("TESTLINE".toList, OperPriv.kline), ("PROTECT".toList, OperPriv.kline),
  ("SAJOIN".toList, OperPriv.sa), ("SAPART".toList, OperPriv.sa), ("SAMODE".toList, OperPriv.sa),
  ("SANICK".toList, OperPriv.sa), ("CHGHOST".toList, OperPriv.host),
  ("SETHOST".toList, OperPriv.host), ("CHGIDENT".toList, OperPriv.host),
  ("USERIP".toList, OperPriv.host), ("WALLOPS".toList, OperPriv.wallops),
  ("GLOBOPS".toList, OperPriv.wallops), ("OPERWALL".toList, OperPriv.wallops),
  ("LOCOPS".toList, OperPriv.wallops), ("REHASH".toList, OperPriv.rehash),
  ("DIE".toList, OperPriv.die), ("RESTART".toList, OperPriv.die), ("SQUIT".toList, OperPriv.link),
  ("CONNECT".toList, OperPriv.link)]

/-- `command_priv`; 0 is no class. -/
def commandPriv (cmd : Text) : Nat :=
  ((commandPrivs.find? fun x => caseEq x.1 cmd).map Prod.snd).getD 0

/-! ## 2. Looking a command up

The places of the table are sorted once, by name and without case, and then searched by halves. -/

/-- What `strcasecmp` orders the entries by. -/
def entryKey (i : Nat) : Text := (dispatchTable[i]?.map fun e => lower e.name).getD []

/-- `g_sorted`. -/
def gSorted : List Nat :=
  (List.range dispatchTable.length).insertionSort fun i j => entryKey i ≤ entryKey j

/-- `find_dispatch`. -/
def findDispatch (cmd : Text) : Option Nat :=
  BinarySearch.search entryKey (lower cmd) gSorted.length gSorted

/-! ## 3. Whether a handler runs

The questions are asked in the order of the source, since the first that is answered with no
decides what the client is told. -/

/-- What the dispatcher reads of a client; `shunned` is what `server_is_shunned` says at this
moment. -/
structure DispatchClient where
  registered : Bool
  oper : Bool
  operPrivs : Nat
  shunned : Bool

/-- What comes of a command: the handler of an entry, a numeric, or nothing at all. -/
inductive Dispatched
  | dropped
  | refused (numeric : Text) (params : List Text) (text : Text)
  | run (i : Nat)
deriving DecidableEq

/-- `err_no_privileges`. -/
def errNoPrivileges : Dispatched :=
  .refused "481".toList [] "Permission Denied- You're not an IRC operator".toList

/-- `dispatch_inner`, up to the handler. A client that is not registered is told so before anything
is looked up, and a shunned one is told nothing. -/
def dispatchInner (cl : DispatchClient) (cmd : Text) (nparams : Nat) : Dispatched :=
  if cl.registered = false ∧ isRegistrationCommand cmd = false then
    .refused "451".toList [] "You have not registered".toList
  else if cl.registered ∧ cl.oper = false ∧ cl.shunned ∧ shunAllowed.any (caseEq cmd) = false then
    .dropped
  else
    match findDispatch cmd with
    | some i =>
      match dispatchTable[i]? with
      | some e =>
        if nparams < e.minParams then .refused "461".toList [cmd] "Not enough parameters".toList
        else if e.operOnly ∧ cl.oper = false then errNoPrivileges
        else
          let need := if e.operOnly then commandPriv cmd else 0
          if need ≠ 0 ∧ cl.operPrivs &&& need = 0 then errNoPrivileges else .run i
      | none => .dropped
    | none =>
      if cl.registered then .refused "421".toList [cmd] "Unknown command".toList else .dropped

/-! ## 4. Counting

The remembered places belong to the process and the counts to a server. Two servers of one process
use the same places for counts that are in another order. -/

/-- `command_counts` of one server; a count is an `int`. -/
abbrev CommandCounts := List (Text × Int)

/-- `count_slot`, for the process, and the counts of every server. The first is a static array and
has no more than one number for each entry of the table. -/
structure Counters (ι : Type) where
  countSlot : Nat → Option Nat
  commandCounts : ι → CommandCounts

/-- Where a command is counted: the place remembered, if its name stands there. -/
def countSlotFor (counts : CommandCounts) (cached : Option Nat) (name : Text) :
    Option Nat × CommandCounts :=
  match cached.filter fun cs => counts[cs]?.map Prod.fst == some name with
  | some cs => (some cs, counts)
  | none =>
    match counts.findIdx? fun c => c.1 == name with
    | some cs => (some cs, counts)
    | none =>
      if counts.length < 128 then (some counts.length, counts ++ [(clip 32 name, 0)])
      else (none, counts)

/-- `count++`, for an `int`. -/
def increment (c : Text × Int) : Text × Int := (c.1, (c.2 + 1).bmod (2 ^ 32))

namespace Counters

variable {ι : Type} [DecidableEq ι]

/-- A command is counted. -/
def count (s : Counters ι) (k : ι) (i : Nat) (name : Text) : Counters ι :=
  let (slot, counts) := countSlotFor (s.commandCounts k) (s.countSlot i) name
  { countSlot := Function.update s.countSlot i slot
    commandCounts := Function.update s.commandCounts k
      (match slot with
      | some cs => counts.modify cs increment
      | none => counts) }

end Counters

/-- A server starts, or a client's command reaches one. `ι` names the servers of the process, and
one may start again. -/
inductive DispatchEvent (ι : Type)
  | init (k : ι)
  | command (k : ι) (cl : DispatchClient) (cmd : Text) (nparams : Nat)

namespace DispatchEvent

variable {ι : Type} [DecidableEq ι]

/-- The entry whose handler a command runs. -/
def entry (cl : DispatchClient) (cmd : Text) (nparams : Nat) : Option (Nat × CmdEntry) :=
  match dispatchInner cl cmd nparams with
  | .run i => dispatchTable[i]?.map fun e => (i, e)
  | _ => none

def step (s : Counters ι) : DispatchEvent ι → Counters ι
  | init k => { s with commandCounts := Function.update s.commandCounts k [] }
  | command k cl cmd nparams =>
    match entry cl cmd nparams with
    | some (i, e) => s.count k i e.name
    | none => s

def start : Counters ι := ⟨fun _ => none, fun _ => []⟩

def run (es : List (DispatchEvent ι)) : Counters ι := es.foldl step start

def ranStep (k : ι) (names : List Text) : DispatchEvent ι → List Text
  | init k' => if k' = k then [] else names
  | command k' cl cmd nparams =>
    if k' = k then names ++ ((entry cl cmd nparams).map fun x => x.2.name).toList else names

/-- What has run on server `k` since it started, by name. -/
def ran (k : ι) (es : List (DispatchEvent ι)) : List Text := es.foldl (ranStep k) []

end DispatchEvent

/-! ## 5. The table, looked up

The sorted places are one for each name, so a name is found at its own entry. That the search ends
within seven looks is what 94 entries give. -/

theorem names_nodup : (dispatchTable.map fun e => lower e.name).Nodup := by decide +kernel

theorem names_fit : ∀ e ∈ dispatchTable, e.name.length < 32 := by decide +kernel

theorem table_length : dispatchTable.length = 94 := rfl

theorem entryKey_of {i : Nat} {e : CmdEntry} (h : dispatchTable[i]? = some e) :
    entryKey i = lower e.name := by
  rw [entryKey, h]
  rfl

theorem keys_eq : (List.range dispatchTable.length).map entryKey =
    dispatchTable.map fun e => lower e.name := by
  refine List.ext_getElem? fun i => ?_
  rw [List.getElem?_map, List.getElem?_map]
  by_cases hi : i < dispatchTable.length
  · have he := List.getElem?_eq_getElem hi
    rw [List.getElem?_range hi, he]
    exact congrArg some (entryKey_of he)
  · have hn := Nat.le_of_not_lt hi
    rw [List.getElem?_eq_none hn, List.getElem?_eq_none (by rwa [List.length_range])]
    rfl

theorem gSorted_perm : gSorted.Perm (List.range dispatchTable.length) := List.perm_insertionSort ..

theorem gSorted_ascends : gSorted.Pairwise fun i j => entryKey i < entryKey j := by
  refine BinarySearch.ascends_insertionSort ?_
  rw [keys_eq]
  exact names_nodup

/-- **The search by halves** finds the entry of that name, however often it may look, from seven
times on. -/
theorem findDispatch_search_iff {n : Nat} (hn : 7 ≤ n) {cmd : Text} {i : Nat} :
    BinarySearch.search entryKey (lower cmd) n gSorted = some i ↔
      ∃ e, dispatchTable[i]? = some e ∧ caseEq cmd e.name = true := by
  have hlen : gSorted.length < 2 ^ n := by
    rw [gSorted_perm.length_eq, List.length_range, table_length]
    exact Nat.lt_of_lt_of_le (by decide) (Nat.pow_le_pow_right (by decide) hn)
  rw [BinarySearch.search_eq_some_iff gSorted_ascends hlen, gSorted_perm.mem_iff, List.mem_range]
  constructor
  · rintro ⟨hi, hkey⟩
    have he := List.getElem?_eq_getElem hi
    refine ⟨_, he, caseEq_iff.mpr ?_⟩
    rw [← hkey, entryKey_of he]
  · rintro ⟨e, he, hname⟩
    refine ⟨(List.getElem?_eq_some_iff.mp he).1, ?_⟩
    rw [entryKey_of he]
    exact (caseEq_iff.mp hname).symm

theorem findDispatch_iff {cmd : Text} {i : Nat} :
    findDispatch cmd = some i ↔ ∃ e, dispatchTable[i]? = some e ∧ caseEq cmd e.name = true := by
  refine findDispatch_search_iff ?_
  rw [gSorted_perm.length_eq, List.length_range, table_length]
  decide

/-! ## 6. Which handler runs -/

/-- A client may run an entry by this command. The fields are the gates in the order of the code:
registration, shuns, the number of parameters, and what an operator may do. -/
structure Permitted (cl : DispatchClient) (cmd : Text) (nparams : Nat) (e : CmdEntry) : Prop where
  name : caseEq cmd e.name = true
  registered : cl.registered = true ∨ ∃ c ∈ registrationCommands, caseEq cmd c = true
  heard : cl.registered = true → cl.oper = false → cl.shunned = true →
    ∃ c ∈ shunAllowed, caseEq cmd c = true
  params : e.minParams ≤ nparams
  oper : e.operOnly = true → cl.oper = true ∧
    (commandPriv cmd = 0 ∨ cl.operPrivs &&& commandPriv cmd ≠ 0)

theorem any_caseEq {l : List Text} {cmd : Text} :
    l.any (caseEq cmd) = true ↔ ∃ c ∈ l, caseEq cmd c = true := List.any_eq_true

/-- **The handler that runs** is the one of that name, for who may run it, and else none does. The
table is searched by a binary search over an index that is sorted once, so what has to be shown is
that the index is sorted and that no name stands in the table twice. Names are compared without
case. -/
theorem handler_runs_iff {cl : DispatchClient} {cmd : Text} {nparams i : Nat} :
    dispatchInner cl cmd nparams = .run i ↔
      ∃ e, dispatchTable[i]? = some e ∧ Permitted cl cmd nparams e := by
  rw [dispatchInner]
  by_cases hreg : cl.registered = false ∧ isRegistrationCommand cmd = false
  · rw [if_pos hreg]
    refine ⟨nofun, ?_⟩
    rintro ⟨e, -, he⟩
    rcases he.registered with h | h
    · rw [hreg.1] at h
      cases h
    · rw [isRegistrationCommand] at hreg
      rw [any_caseEq.mpr h] at hreg
      cases hreg.2
  rw [if_neg hreg]
  by_cases hshun : cl.registered = true ∧ cl.oper = false ∧ cl.shunned = true ∧
      shunAllowed.any (caseEq cmd) = false
  · rw [if_pos hshun]
    refine ⟨nofun, ?_⟩
    rintro ⟨e, -, he⟩
    have hany := any_caseEq.mpr (he.heard hshun.1 hshun.2.1 hshun.2.2.1)
    rw [hshun.2.2.2] at hany
    cases hany
  rw [if_neg hshun]
  have hregistered : cl.registered = true ∨ ∃ c ∈ registrationCommands, caseEq cmd c = true := by
    by_contra hno
    obtain ⟨h1, h2⟩ := not_or.mp hno
    refine hreg ⟨Bool.eq_false_of_not_eq_true h1, Bool.eq_false_of_not_eq_true fun h => h2 ?_⟩
    exact any_caseEq.mp h
  have hheard : cl.registered = true → cl.oper = false → cl.shunned = true →
      ∃ c ∈ shunAllowed, caseEq cmd c = true := by
    intro h1 h2 h3
    by_contra hno
    refine hshun ⟨h1, h2, h3, Bool.eq_false_of_not_eq_true fun h => hno ?_⟩
    exact any_caseEq.mp h
  cases hfind : findDispatch cmd with
  | none =>
    dsimp only
    refine ⟨fun h => ?_, ?_⟩
    · split at h
      · cases h
      · cases h
    rintro ⟨e, he, hp⟩
    rw [findDispatch_iff.mpr ⟨e, he, hp.name⟩] at hfind
    cases hfind
  | some j =>
    obtain ⟨e, he, hname⟩ := findDispatch_iff.mp hfind
    dsimp only
    rw [he]
    dsimp only
    have hsame : ∀ e', dispatchTable[i]? = some e' ∧ Permitted cl cmd nparams e' →
        i = j ∧ e' = e := by
      rintro e' ⟨he', hp⟩
      have hi := findDispatch_iff.mpr ⟨e', he', hp.name⟩
      rw [hfind] at hi
      obtain rfl : j = i := Option.some.inj hi
      exact ⟨rfl, Option.some.inj (he'.symm.trans he)⟩
    by_cases hparams : nparams < e.minParams
    · rw [if_pos hparams]
      refine ⟨nofun, ?_⟩
      rintro ⟨e', he'⟩
      obtain ⟨-, rfl⟩ := hsame e' he'
      exact absurd he'.2.params (Nat.not_le_of_lt hparams)
    rw [if_neg hparams]
    by_cases hoper : e.operOnly = true ∧ cl.oper = false
    · rw [if_pos hoper]
      refine ⟨nofun, ?_⟩
      rintro ⟨e', he'⟩
      obtain ⟨-, rfl⟩ := hsame e' he'
      have ho := (he'.2.oper hoper.1).1
      rw [hoper.2] at ho
      cases ho
    rw [if_neg hoper]
    by_cases hpriv : (if e.operOnly then commandPriv cmd else 0) ≠ 0 ∧
        cl.operPrivs &&& (if e.operOnly then commandPriv cmd else 0) = 0
    · rw [if_pos hpriv]
      refine ⟨nofun, ?_⟩
      rintro ⟨e', he'⟩
      obtain ⟨-, rfl⟩ := hsame e' he'
      cases hopOnly : e'.operOnly with
      | false => simp [hopOnly] at hpriv
      | true =>
        rw [if_pos hopOnly] at hpriv
        rcases (he'.2.oper hopOnly).2 with h | h
        · exact absurd h hpriv.1
        · exact absurd hpriv.2 h
    rw [if_neg hpriv]
    constructor
    · rintro ⟨⟩
      refine ⟨e, he, hname, hregistered, hheard, Nat.le_of_not_lt hparams, fun honly => ?_⟩
      rw [if_pos honly] at hpriv
      refine ⟨by_contra fun h => hoper ⟨honly, Bool.eq_false_of_not_eq_true h⟩, ?_⟩
      by_contra hno
      obtain ⟨h1, h2⟩ := not_or.mp hno
      exact hpriv ⟨h1, not_not.mp h2⟩
    · rintro ⟨e', he'⟩
      rw [(hsame e' he').1]

/-! ## 7. What is counted

A place that is remembered is checked by the name that stands there, so a wrong one costs a search
and nothing else. -/

/-- Every name once, in the order of its first use, and how often it was used. -/
def tally (names : List Text) : CommandCounts :=
  names.eraseDups.map fun n => (n, (names.count n : Int).bmod (2 ^ 32))

theorem eraseDups_concat (l : List Text) (a : Text) :
    (l ++ [a]).eraseDups = if a ∈ l then l.eraseDups else l.eraseDups ++ [a] := by
  rw [List.eraseDups_append, List.cons_removeAll]
  by_cases h : a ∈ l
  · simp [h]
  · simp [h, List.eraseDups_cons]

theorem nodup_eraseDups (l : List Text) : l.eraseDups.Nodup := by
  induction l using List.reverseRecOn with
  | nil => exact List.nodup_nil
  | append_singleton l a ih =>
    rw [eraseDups_concat]
    split
    · exact ih
    · next h =>
      refine List.nodup_append.mpr ⟨ih, List.nodup_singleton a, ?_⟩
      rintro b hb c hc rfl
      rw [List.mem_singleton.mp hc] at hb
      exact h (List.mem_eraseDups.mp hb)

theorem tally_names (names : List Text) : (tally names).map Prod.fst = names.eraseDups := by
  rw [tally, List.map_map]
  exact List.map_id _

/-- What `countSlotFor` leaves: a command that was never counted gets a place. -/
def withPlace (counts : CommandCounts) (name : Text) : CommandCounts :=
  if counts.any fun c => c.1 == name then counts else counts ++ [(name, 0)]

theorem withPlace_eq (counts : CommandCounts) (name : Text) : withPlace counts name =
    if name ∈ counts.map Prod.fst then counts else counts ++ [(name, 0)] := by
  have hany : (counts.any fun c => c.1 == name) = true ↔ name ∈ counts.map Prod.fst := by
    rw [List.any_eq_true, List.mem_map]
    exact exists_congr fun c => and_congr_right fun _ => beq_iff_eq
  rw [withPlace]
  exact if_congr hany rfl rfl

theorem withPlace_tally (names : List Text) (name : Text) : withPlace (tally names) name =
    if name ∈ names then tally names else tally names ++ [(name, 0)] := by
  simp only [withPlace_eq, tally_names, List.mem_eraseDups]

/-- **The place for a command** has its name, whatever was remembered. -/
theorem countSlotFor_spec {counts : CommandCounts} (hroom : counts.length < 128)
    (cached : Option Nat) {name : Text} (hfit : name.length < 32) :
    ∃ cs, countSlotFor counts cached name = (some cs, withPlace counts name) ∧
      (withPlace counts name)[cs]?.map Prod.fst = some name := by
  rw [countSlotFor, withPlace_eq]
  split
  · next cs hcs =>
    have hname : counts[cs]?.map Prod.fst = some name :=
      eq_of_beq (Option.filter_eq_some_iff.mp hcs).2
    have hmem : name ∈ counts.map Prod.fst := by
      obtain ⟨c, hc, hfst⟩ := Option.map_eq_some_iff.mp hname
      exact List.mem_map.mpr ⟨c, List.mem_of_getElem? hc, hfst⟩
    rw [if_pos hmem]
    exact ⟨cs, rfl, hname⟩
  · split
    · next cs hcs =>
      obtain ⟨hlt, hname, -⟩ := List.findIdx?_eq_some_iff_getElem.mp hcs
      have hmem : name ∈ counts.map Prod.fst :=
        List.mem_map.mpr ⟨_, List.getElem_mem hlt, eq_of_beq hname⟩
      rw [if_pos hmem]
      refine ⟨cs, rfl, ?_⟩
      rw [List.getElem?_eq_getElem hlt]
      exact congrArg some (eq_of_beq hname)
    · next hnone =>
      have hmem : name ∉ counts.map Prod.fst := by
        intro h
        obtain ⟨c, hc, hfst⟩ := List.mem_map.mp h
        have hno := List.findIdx?_eq_none_iff.mp hnone c hc
        rw [beq_eq_false_iff_ne] at hno
        exact hno hfst
      rw [if_pos hroom, if_neg hmem, clip_of_fits hfit]
      exact ⟨counts.length, rfl, by rw [List.getElem?_concat_length]; rfl⟩

/-- Of names that differ, one place is one name. -/
theorem modify_eq_map {counts : CommandCounts} (hnodup : (counts.map Prod.fst).Nodup) {cs : Nat}
    {name : Text} (hcs : counts[cs]?.map Prod.fst = some name) (f : Text × Int → Text × Int) :
    counts.modify cs f = counts.map fun c => if c.1 = name then f c else c := by
  refine List.ext_getElem? fun i => ?_
  rw [List.getElem?_modify, List.getElem?_map]
  cases hi : counts[i]? with
  | none => rfl
  | some c =>
    have hplace : cs = i ↔ c.1 = name := by
      have hic : (counts.map Prod.fst)[i]? = some c.1 := by rw [List.getElem?_map, hi]; rfl
      rw [← List.getElem?_map] at hcs
      constructor
      · rintro rfl
        exact Option.some.inj (hic.symm.trans hcs)
      · intro h
        rw [← h] at hcs
        refine (List.getElem?_inj (List.getElem?_eq_some_iff.mp hcs).1 hnodup).mp ?_
        exact hcs.trans hic.symm
    simp only [Option.map_some, hplace]
    split <;> rfl

theorem increment_bmod (n : Text) (k : Nat) :
    increment (n, (k : Int).bmod (2 ^ 32)) = (n, ((k + 1 : Nat) : Int).bmod (2 ^ 32)) := by
  rw [increment, Int.bmod_add_bmod, Nat.cast_add, Nat.cast_one]

theorem tally_concat (names : List Text) (name : Text) :
    tally (names ++ [name]) =
      (withPlace (tally names) name).map fun c => if c.1 = name then increment c else c := by
  have hold : ∀ n ∈ names.eraseDups, (n, ((names ++ [name]).count n : Int).bmod (2 ^ 32)) =
      (if n = name then increment (n, (names.count n : Int).bmod (2 ^ 32))
        else (n, (names.count n : Int).bmod (2 ^ 32))) := by
    intro n _
    rw [List.count_append, List.count_singleton]
    by_cases hn : n = name
    · rw [if_pos hn, increment_bmod, hn]
      simp
    · rw [if_neg hn]
      have hne : (name == n) = false := beq_eq_false_iff_ne.mpr fun h => hn h.symm
      rw [hne]
      rfl
  rw [withPlace_tally]
  by_cases hmem : name ∈ names
  · rw [if_pos hmem, tally, tally, eraseDups_concat, if_pos hmem, List.map_map]
    exact List.map_congr_left hold
  · rw [if_neg hmem, tally, tally, eraseDups_concat, if_neg hmem, List.map_append, List.map_append,
      List.map_map]
    congr 1
    · exact List.map_congr_left hold
    · have hnew : (names ++ [name]).count name = 0 + 1 := by
        rw [List.count_append, List.count_eq_zero_of_not_mem hmem, List.count_singleton_self]
      rw [List.map_singleton, List.map_singleton, if_pos rfl, hnew]
      rfl

namespace DispatchEvent

variable {ι : Type} [DecidableEq ι]

theorem entry_mem {cl : DispatchClient} {cmd : Text} {nparams i : Nat} {e : CmdEntry}
    (h : entry cl cmd nparams = some (i, e)) : dispatchTable[i]? = some e := by
  rw [entry] at h
  split at h
  · obtain ⟨e', he', heq⟩ := Option.map_eq_some_iff.mp h
    obtain ⟨rfl, rfl⟩ := Prod.mk.inj heq
    exact he'
  · cases h

/-- What has run stands in the table. -/
def Known (names : List Text) : Prop := ∀ n ∈ names, n ∈ dispatchTable.map CmdEntry.name

theorem Known.length_lt {names : List Text} (h : Known names) : (tally names).length < 128 := by
  have hsub : names.eraseDups ⊆ dispatchTable.map CmdEntry.name := fun n hn =>
    h n (List.mem_eraseDups.mp hn)
  have hle := (List.subperm_of_subset (nodup_eraseDups names) hsub).length_le
  rw [List.length_map, table_length] at hle
  rw [tally, List.length_map]
  omega

theorem count_tally {s : Counters ι} {k : ι} {names : List Text} (hk : Known names)
    (hs : s.commandCounts k = tally names) (i : Nat) {name : Text} (hfit : name.length < 32) :
    (s.count k i name).commandCounts k = tally (names ++ [name]) := by
  obtain ⟨cs, hslot, hname⟩ := countSlotFor_spec hk.length_lt (s.countSlot i) hfit
  have hnodup : ((withPlace (tally names) name).map Prod.fst).Nodup := by
    have hnames := nodup_eraseDups (names ++ [name])
    rw [eraseDups_concat] at hnames
    rw [withPlace_tally]
    split at hnames
    · next hmem => rwa [if_pos hmem, tally_names]
    · next hmem =>
      rw [if_neg hmem, List.map_append, tally_names]
      exact hnames
  rw [Counters.count, hs, hslot]
  dsimp only
  rw [Function.update_self, modify_eq_map hnodup hname, tally_concat]

theorem count_other {s : Counters ι} {k k' : ι} (h : k' ≠ k) (i : Nat) (name : Text) :
    (s.count k i name).commandCounts k' = s.commandCounts k' := Function.update_of_ne h ..

theorem known_ran (k : ι) (es : List (DispatchEvent ι)) : Known (ran k es) := by
  induction es using List.reverseRecOn with
  | nil => exact fun n hn => by cases hn
  | append_singleton es e ih =>
    rw [ran, List.foldl_concat]
    cases e with
    | init k' =>
      rw [ranStep]
      split
      · exact fun n hn => by cases hn
      · exact ih
    | command k' cl cmd nparams =>
      rw [ranStep]
      split
      · intro n hn
        rcases List.mem_append.mp hn with hn | hn
        · exact ih n hn
        · obtain ⟨⟨i, e⟩, hx, rfl⟩ := Option.map_eq_some_iff.mp (Option.mem_toList.mp hn)
          exact List.mem_map.mpr ⟨e, List.mem_of_getElem? (entry_mem hx), rfl⟩
      · exact ih

/-- **The counts are right**: on every server, they are what has run since it started, in the order
of its first use. The slots are static and shared by all servers of the process, and still what
runs on the others in between does not show. -/
theorem counts_exact (es : List (DispatchEvent ι)) (k : ι) :
    (run es).commandCounts k = tally (ran k es) := by
  induction es using List.reverseRecOn with
  | nil => rfl
  | append_singleton es e ih =>
    rw [run, ran, List.foldl_concat, List.foldl_concat]
    change (step (run es) e).commandCounts k = tally (ranStep k (ran k es) e)
    cases e with
    | init k' =>
      rw [step, ranStep]
      by_cases hk : k' = k
      · rw [hk, if_pos rfl]
        exact Function.update_self ..
      · rw [if_neg hk]
        exact (Function.update_of_ne (Ne.symm hk) ..).trans ih
    | command k' cl cmd nparams =>
      rw [step, ranStep]
      cases hentry : entry cl cmd nparams with
      | none =>
        dsimp only [Option.map_none, Option.toList_none]
        rw [List.append_nil, ite_self]
        exact ih
      | some x =>
        obtain ⟨i, e⟩ := x
        dsimp only [Option.map_some, Option.toList_some]
        by_cases hk : k' = k
        · rw [hk, if_pos rfl]
          exact count_tally (known_ran k es) ih i
            (names_fit e (List.mem_of_getElem? (entry_mem hentry)))
        · rw [if_neg hk]
          exact (count_other (Ne.symm hk) i e.name).trans ih

end DispatchEvent

end SekurIRCd
