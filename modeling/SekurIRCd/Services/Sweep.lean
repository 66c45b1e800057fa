/-
# The sweep when the services link comes up

ChanServ keeps no channel state on the ircd, so whenever its link comes up it puts back what every
registered channel should have: `+r`, the MLOCK, itself in the guarded ones, and it asks for the
members of each.  `guard_join_all` queues all of this at once, in a send buffer of 64 KiB that is
first flushed by the main loop afterwards, and `queue_line` drops a line for which there is no
room.

The sweep is whole exactly when all its bytes fit that buffer together (`sweep_reaches_iff`), so
not for any store of 16384 channels, whatever their settings (`not_sweepReaches_of_many`).
-/
import SekurIRCd.Lib.SendBuffer
import SekurIRCd.Services.SecureOps

namespace SekurIRCd

open CLib SendBuffer

/-! ## 1. The lines -/

/-- Who the two services are, from their configuration. NickServ may be turned off, and is not
introduced then. -/
structure ServicesCfg where
  nick : Text
  user : Text
  host : Text
  nickserv : Option (Text × Text × Text × Text)

/-- A record of ChanServ's store with its key. Its MLOCK is the watcher's `ChanRec`; the sweep also
sends what the channel's topic and guard need. -/
structure StoreEntry where
  key : Text
  name : Text
  guard : Bool
  topiclock : Bool
  topic : Text
  mlock : ChanRec

section Lines

variable (cfg : ServicesCfg)

/-- The source of ChanServ's lines. -/
def ServicesCfg.source : Text := ircSourceFor cfg.nick cfg.user cfg.host

def wireJoin (chan : Text) : Text :=
  (ircBuild 300 [] (some cfg.source) "JOIN".toList [chan] none).text

def wireMode (chan modestring : Text) (arg : Option Text) : Text :=
  (ircBuild 400 [] (some cfg.source) "MODE".toList ([chan, modestring] ++ arg.toList) none).text

/-- `wire_mode_args`: printed, not built, so nothing is defanged. -/
def wireModeArgs (chan modestring args : Text) : Text :=
  clip 700 (':' :: cfg.source ++ " MODE ".toList ++ chan ++ ' ' :: modestring ++
    (if args = [] then [] else ' ' :: args))

def wireTopic (chan topic : Text) : Text :=
  (ircBuild 600 [] (some cfg.source) "TOPIC".toList [chan] (some topic)).text

/-- `SVCMEMBERS <chan> * SYNC`. -/
def wireSvcmembersSync (chan : Text) : Text :=
  (ircBuild 300 [] none "SVCMEMBERS".toList [chan, ['*'], "SYNC".toList] none).text

/-- The parameters that are locked, in the order of `MLOCK_PARAMS`. -/
def ChanRec.lockedParams (rec : ChanRec) : List (Char × Text) :=
  [('k', rec.mlockKey), ('l', rec.mlockLimit), ('f', rec.mlockFlood), ('j', rec.mlockJt),
    ('L', rec.mlockRedirect)].filter (·.2 ≠ [])

/-- Another word of an argument list in a buffer of 300 bytes. -/
def addArg (args v : Text) : Text :=
  strncat 300 (strncat 300 args (if args = [] then [] else [' '])) v

/-- What `apply_mlock` prints: the mode string and its arguments. -/
def ChanRec.lockModes (rec : ChanRec) : Text × Text :=
  let anyOn := decide (rec.mlock ≠ [] ∨ rec.lockedParams ≠ [])
  let modes := if anyOn then '+' :: rec.mlock.take 55 ++ rec.lockedParams.map Prod.fst else []
  let args := if anyOn then (rec.lockedParams.map Prod.snd).foldl addArg [] else []
  if rec.mlockOff = [] then (modes, args)
  else
    let off := rec.mlockOff.take (61 - modes.length)
    (modes ++ '-' :: off, (off.filter (· = 'k')).foldl (fun a _ => addArg a ['*']) args)

/-- `apply_mlock`: no line if nothing is locked. -/
def applyMlock (rec : ChanRec) (chan : Text) : List Text :=
  if rec.lockModes.1 = [] then [] else [wireModeArgs cfg chan rec.lockModes.1 rec.lockModes.2]

/-- The name of a record's channel: its own, or else its key. -/
def StoreEntry.chan (e : StoreEntry) : Text := if e.name = [] then e.key else e.name

/-- What `guard_join_all` queues for one record. -/
def entryLines (e : StoreEntry) : List Text :=
  if e.chan = [] then []
  else
    (if e.guard then
      wireJoin cfg e.chan ::
        (if e.topiclock = true ∧ e.topic ≠ [] then [wireTopic cfg e.chan e.topic] else [])
    else []) ++
    wireMode cfg e.chan "+r".toList none :: applyMlock cfg e.mlock e.chan ++
    [wireSvcmembersSync e.chan]

/-- What `guard_join_all` queues.  A record that is no object is passed over. -/
def guardJoinAll (store : List (Option StoreEntry)) : List Text :=
  store.flatMap fun e => e.elim [] (entryLines cfg)

/-- What `ns_session_start` queues before. -/
def nsSessionStart : List Text :=
  match cfg.nickserv with
  | none => ["SVCWATCH USERS".toList]
  | some (nick, user, host, realname) =>
    [(ircBuild 600 [] none "NICK".toList [nick, user, host] (some realname)).text,
      "SVCWATCH USERS".toList]

end Lines

/-! ## 2. The buffer -/

/-- `SBUF_SZ`. -/
def sbufSz : Nat := 64 * 1024

/-- A line as it stands in the buffer. -/
def crlf (line : Text) : Text := line ++ ['\r', '\n']

/-- `queue_line`. A line that would not fit is dropped, and those behind it may still find room. -/
def queueLine (b : Buffer Char) (line : Text) : Buffer Char := b.queue sbufSz (crlf line)

section Session

variable (cfg : ServicesCfg) (store : List (Option StoreEntry))

/-- All that is queued before the main loop. -/
def startLines : List Text := nsSessionStart cfg ++ guardJoinAll cfg store

/-- The buffer when the main loop starts. -/
def linkStart : Buffer Char := (startLines cfg store).foldl queueLine .empty

/-- The bytes of the lines, in order. -/
def startText : Text := ((startLines cfg store).map crlf).flatten

/-- **The sweep is complete**: whatever is queued and written from then on, once the buffer has
drained the socket has all the lines, first and in order. -/
def SweepReaches : Prop :=
  ∀ steps : List (Buffer.Step Char),
    (steps.foldl (Buffer.step sbufSz) (linkStart cfg store)).held = [] →
    startText cfg store <+: (steps.foldl (Buffer.step sbufSz) (linkStart cfg store)).sent

theorem linkStart_eq :
    linkStart cfg store = Buffer.queueAll sbufSz .empty ((startLines cfg store).map crlf) := by
  rw [Buffer.queueAll, List.foldl_map]
  rfl

/-- What has been accepted is the sweep exactly when the sweep fits. -/
theorem linkStart_whole_iff :
    startText cfg store <+: (linkStart cfg store).held ↔ (startText cfg store).length < sbufSz := by
  have hempty : (Buffer.empty : Buffer Char).held.length < sbufSz := by decide
  have hiff := Buffer.queueAll_iff hempty ((startLines cfg store).map crlf)
  rw [← linkStart_eq] at hiff
  simpa [Buffer.empty, startText] using hiff

theorem sweepReaches_of_fits (h : (startText cfg store).length < sbufSz) :
    SweepReaches cfg store := by
  intro steps hdrained
  have hwhole := (linkStart_whole_iff cfg store).mpr h
  have hsent : (linkStart cfg store).sent = [] := by
    rw [linkStart_eq, Buffer.sent_queueAll]
    rfl
  have hrun : (linkStart cfg store).stream <+:
      (steps.foldl (Buffer.step sbufSz) (linkStart cfg store)).stream := Buffer.stream_run steps _
  rw [Buffer.stream, Buffer.stream, hsent, hdrained, List.append_nil, List.nil_append] at hrun
  exact hwhole.trans hrun

theorem fits_of_sweepReaches (h : SweepReaches cfg store) :
    (startText cfg store).length < sbufSz := by
  have hsent : (linkStart cfg store).sent = [] := by
    rw [linkStart_eq, Buffer.sent_queueAll]
    rfl
  have hdrain := h [.write (linkStart cfg store).held.length] (by simp [Buffer.step, Buffer.write])
  rw [← linkStart_whole_iff]
  simpa [Buffer.step, Buffer.write, hsent] using hdrain

end Session

/-- **The sweep is complete exactly for the stores whose lines fit the buffer together.** The lines
are all queued before the main loop first writes, and one that does not fit is dropped without a
word. -/
theorem sweep_reaches_iff (cfg : ServicesCfg) (store : List (Option StoreEntry)) :
    SweepReaches cfg store ↔ (startText cfg store).length < sbufSz :=
  ⟨fits_of_sweepReaches cfg store, sweepReaches_of_fits cfg store⟩

/-! ## 3. Stores that are too large -/

theorem length_entryLines (cfg : ServicesCfg) {e : StoreEntry} (h : e.chan ≠ []) :
    4 ≤ (((entryLines cfg e).map crlf).flatten).length := by
  rw [entryLines, if_neg h]
  simp only [List.map_append, List.map_cons, List.map_nil, List.flatten_append, List.flatten_cons,
    List.flatten_nil, List.length_append, crlf, List.length_cons, List.length_nil]
  omega

theorem length_guardJoinAll (cfg : ServicesCfg) : ∀ store : List (Option StoreEntry),
    (∀ e ∈ store, ∃ r, e = some r ∧ r.chan ≠ []) →
    4 * store.length ≤ (((guardJoinAll cfg store).map crlf).flatten).length
  | [], _ => Nat.zero_le _
  | e :: store, h => by
    obtain ⟨r, rfl, hr⟩ := h e List.mem_cons_self
    have ih := length_guardJoinAll cfg store fun e' he' => h e' (List.mem_cons_of_mem _ he')
    have hentry := length_entryLines cfg hr
    rw [guardJoinAll] at ih ⊢
    rw [List.flatMap_cons, List.map_append, List.flatten_append, List.length_append,
      List.length_cons]
    simp only [Option.elim_some]
    omega

/-- **No store of 16384 channels is swept whole.** -/
theorem not_sweepReaches_of_many (cfg : ServicesCfg) {store : List (Option StoreEntry)}
    (h : ∀ e ∈ store, ∃ r, e = some r ∧ r.chan ≠ []) (hn : 16384 ≤ store.length) :
    ¬ SweepReaches cfg store := by
  intro hs
  have hfits := fits_of_sweepReaches cfg store hs
  have hmany := length_guardJoinAll cfg store h
  rw [startText, startLines, List.map_append, List.flatten_append, List.length_append,
    sbufSz] at hfits
  omega

/-- The channels #0, #1 and so on, with no settings. -/
def numbered (n : Nat) : List (Option StoreEntry) :=
  (List.range n).map fun i =>
    some ⟨'#' :: decimal i, '#' :: decimal i, false, false, [], ⟨false, [], [], [], [], [], [], []⟩⟩

theorem sweep_overflows : ¬ ∀ cfg store, SweepReaches cfg store := by
  intro h
  refine not_sweepReaches_of_many ⟨"ChanServ".toList, "services".toList, "services.".toList, none⟩
    (fun e he => ?_) (by simp [numbered]) (h _ (numbered 16384))
  obtain ⟨i, -, rfl⟩ := List.mem_map.mp he
  exact ⟨_, rfl, by simp [StoreEntry.chan]⟩

end SekurIRCd
