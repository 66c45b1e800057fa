/-
# ChanServ's MODE watcher

The ircd hands ChanServ the MODE lines of the channels it sits in.  `process_line` walks the
letters with a table of its own for which of them take an argument (`takesArg`), asks the ircd
about every nick that SECUREOPS has to vet, and collects what MLOCK wants put back.

SECUREOPS is as good as this reading: a grant whose letter is paired with another argument is
vetted under another nick or not at all.  The pairing is the ircd's exactly when no removed key
is followed by a letter with a parameter, no parameter is rewritten by `irc_build` and the line
is sent at all (`secureops_iff`).
-/
import SekurIRCd.Mode.Announce

namespace SekurIRCd

open CLib CLib.Signed

/-! ## 1. The watcher

The watcher reads the line that the members of the channel were sent. It pairs letters with
arguments by a table and does not know which letters were refused. -/

/-- What ChanServ's store says of a channel, as far as the watcher reads it: a flag, and the lock
with the text of each of its parameters. -/
structure ChanRec where
  secureops : Bool
  mlock : Text
  mlockOff : Text
  mlockKey : Text
  mlockLimit : Text
  mlockFlood : Text
  mlockJt : Text
  mlockRedirect : Text
deriving DecidableEq

/-- `MLOCK_PARAMS`: the wanted parameter of a letter. -/
def ChanRec.mlockParam (rec : ChanRec) (c : Char) : Option Text :=
  if c = 'k' then some rec.mlockKey else if c = 'l' then some rec.mlockLimit
  else if c = 'f' then some rec.mlockFlood else if c = 'j' then some rec.mlockJt
  else if c = 'L' then some rec.mlockRedirect else none

/-- `fix_on`, `fix_off`, `fix_args` and `fix_off_args`. -/
structure Fixes where
  on : Text
  off : Text
  args : Text
  offArgs : Text
deriving DecidableEq

/-- What MLOCK wants put back after one letter. -/
def Fixes.letter (rec : ChanRec) (f : Fixes) (t : Signed Text) : Fixes :=
  if t.letter ∈ "ohvqabeI".toList then f
  else match rec.mlockParam t.letter with
  | some want =>
    if t.add ∧ t.letter ∈ rec.mlockOff then
      { f with off := strncat 16 f.off [t.letter]
               offArgs := if t.letter = 'k' then strncat 40 f.offArgs ['*'] else f.offArgs }
    else if want ≠ [] ∧ (t.add = false ∨ ∃ a ∈ t.arg, a ≠ want) then
      { f with on := strncat 16 f.on [t.letter]
               args := strncat 200 (strncat 200 f.args (if f.args = [] then [] else [' '])) want }
    else f
  | none =>
    if t.add = false ∧ t.letter ∈ rec.mlock ∧ t.letter ∉ f.on ∧ f.on.length < 15 then
      { f with on := strncat 16 f.on [t.letter] }
    else if t.add ∧ t.letter ∈ rec.mlockOff ∧ t.letter ∉ f.off ∧ f.off.length < 15 then
      { f with off := strncat 16 f.off [t.letter] }
    else f

/-- The mode string and the arguments for `wire_mode_args`. -/
def Fixes.wire (f : Fixes) : Option (Text × Text) :=
  if f.on = [] ∧ f.off = [] then none
  else
    let modes := if f.on = [] then [] else strncat 40 ['+'] f.on
    let modes := if f.off = [] then modes else strncat 40 (strncat 40 modes ['-']) f.off
    some (modes, clip 260 (f.args ++ (if f.args ≠ [] ∧ f.offArgs ≠ [] then [' '] else []) ++ f.offArgs))

/-- `nick_from_prefix`. -/
def nickFromSource (pfx : Text) (outsz : Nat) : Text :=
  match strchr '!' pfx with
  | some (nick, _) => clip outsz nick
  | none => clip outsz pfx

/-- `wire_svcmember_one`: asking who a nick on the channel is. -/
def wireSvcmemberOne (chan nick : Text) : Text :=
  (ircBuild 300 [] none "SVCMEMBERS".toList [chan, nick] none).text

/-- The letters of a MODE line, as the watcher pairs them with arguments. -/
def watched (params : List Text) : List (Signed Text) :=
  match params with
  | _ :: flags :: args => walk takesArg true flags args
  | _ => []

/-- The nick SECUREOPS has to vet for a letter. -/
def vetted (own : Text) (pfx : Option Text) (t : Signed Text) : Option Text :=
  t.arg.filter fun a => t.add && decide (t.letter ∈ "qaoh".toList) && !caseEq a own &&
    pfx.any fun p => decide ('!' ∈ p)

/-- What the watcher does about a line. -/
structure Watch where
  letters : List (Signed Text)
  lookups : List Text
  fix : Option (Text × Text)
deriving DecidableEq

/-- The MODE branch of `process_line`, for the ChanServ called `own`. -/
def modeWatcher (own : Text) (store : Text → Option ChanRec) (msg : IrcMessage) : Watch :=
  match msg.params with
  | chan :: _ :: _ =>
    match if chan.head? = some '#' then store chan else none with
    | none => ⟨[], [], none⟩
    | some rec =>
      let setter := (msg.pfx.map fun p => nickFromSource p 64).getD []
      let letters := if caseEq setter own then [] else watched msg.params
      { letters := letters
        lookups := if rec.secureops then
          (letters.filterMap (vetted own msg.pfx)).map (wireSvcmemberOne chan) else []
        fix := (letters.foldl (Fixes.letter rec) ⟨[], [], [], []⟩).wire }
  | _ => ⟨[], [], none⟩

/-! ## 2. What SECUREOPS has to see

A grant is a rank above voice that a request gave to somebody. Each of them is to be asked about
under the nick that got it. -/

/-- The nicks a request granted `q`, `a`, `o` or `h`. -/
def granted (ts : List (Signed Text)) : List Text :=
  ts.filterMap fun t => t.arg.filter fun _ => t.add && decide (t.letter ∈ "qaoh".toList)

section SecureOps

variable (own : Text) (store : Text → Option ChanRec) (srv : Server) (cl : Client)
  (chan : Channel) (ms : Text) (args : List Text) (full : Bool)

/-- What ChanServ makes of the line that a request broadcasts. -/
def watch : Option Watch :=
  ((cmdApplyChannelMode srv cl chan ms args full).line.bind ircParseLine).map
    (modeWatcher own store)

/-- **SECUREOPS sees every grant**: each letter is paired with the argument the ircd applied,
and each granted nick is looked up. -/
def SeesEveryGrant : Prop :=
  ((watch own store srv cl chan ms args full).elim [] Watch.letters) =
      announced srv cl chan ms args full ∧
    ((watch own store srv cl chan ms args full).elim [] Watch.lookups) =
      (granted (announced srv cl chan ms args full)).map (wireSvcmemberOne chan.name)

/-- **When it does.**  The line fits, no removed key is followed by a letter with a parameter,
no parameter is rewritten, and ChanServ itself, which is never looked up, is granted nothing. -/
def Watchable : Prop :=
  (announced srv cl chan ms args full = [] ∨
    (announcedLine srv cl chan ms args full).length < 510 ∧
      Aligned takesArg (announced srv cl chan ms args full) ∧
      ∀ a ∈ argsOf (announced srv cl chan ms args full), mid a = a) ∧
  ∀ nick ∈ granted (announced srv cl chan ms args full), caseEq nick own = false

end SecureOps

/-! ## 3. The two readings compared

The watcher's table is that of the other servers, so the two readings part where a letter was
announced without the argument that the table gives it. -/

theorem bang_notMem_nick {nick : Text} {n : Nat} (h : ircValidNick nick n = true) :
    '!' ∉ nick := by
  unfold ircValidNick at h
  split at h
  · exact absurd h (by simp)
  · rename_i c cs
    simp only [Bool.and_eq_true, List.all_eq_true] at h
    intro hm
    rcases List.mem_cons.mp hm with heq | hm
    · rw [← heq] at h
      exact absurd h.1.2 (by decide)
    · exact absurd (h.2 '!' hm) (by decide)

/-- The source of a registered client is read back as the nick in front of its `!`. -/
theorem nickFromSource_clientSource {cl : Client} (hn : ircValidNick cl.nick (nickLen - 1) = true)
    (hu : cl.user ≠ []) :
    nickFromSource (clientSource cl) 64 = cl.nick ∧ '!' ∈ clientSource cl := by
  have hbang := bang_notMem_nick hn
  have hlen : cl.nick.length ≤ 63 := valid_nick_length hn
  have hne : cl.nick ≠ [] := by
    intro h
    rw [h] at hn
    exact absurd hn (by decide)
  have hclip : ∀ rest : Text, ∃ rest', clip 320 (cl.nick ++ '!' :: rest) = cl.nick ++ '!' :: rest' := by
    intro rest
    refine ⟨rest.take (318 - cl.nick.length), ?_⟩
    have hk : 320 - 1 - cl.nick.length = 318 - cl.nick.length + 1 := by omega
    rw [clip, List.take_append, List.take_of_length_le (by omega), hk, List.take_succ_cons]
  have hsrc : ∃ rest, clientSource cl = cl.nick ++ '!' :: rest := by
    simp only [clientSource, if_neg hne]
    split
    · simpa using hclip _
    · rw [ircSourceFor, if_pos hu]
      simpa using hclip _
  obtain ⟨rest, hrest⟩ := hsrc
  rw [hrest, nickFromSource, strchr_append hbang]
  exact ⟨clip_of_fits (by omega), by simp⟩

theorem filterMap_vetted (own p : Text) (hp : '!' ∈ p) (ts : List (Signed Text)) :
    ts.filterMap (vetted own (some p)) = (granted ts).filter fun a => !caseEq a own := by
  rw [granted, List.filter_filterMap]
  congr 1
  funext t
  cases harg : t.arg with
  | none => simp [vetted, harg]
  | some a => 
    simp only [vetted, harg, Option.any_some, hp, decide_true, Bool.and_true]
    cases t.add <;> cases decide (t.letter ∈ "qaoh".toList) <;> cases caseEq a own <;> simp [Option.filter]

theorem map_filter_eq_iff {l : List Text} {p : Text → Bool} {f : Text → Text} :
    (l.filter p).map f = l.map f ↔ ∀ a ∈ l, p a = true := by
  constructor
  · intro h
    have hlen : (l.filter p).length = l.length := by simpa using congrArg List.length h
    exact List.length_filter_eq_length_iff.mp hlen
  · intro h
    rw [List.filter_eq_self.mpr h]

section SecureOps

variable {own : Text} {store : Text → Option ChanRec} {rec : ChanRec} {srv : Server}
  {cl svc : Client} {chan : Channel} (ms : Text) (args : List Text) (full : Bool)

/-- What the watcher makes of a line that was sent. -/
theorem watch_of_fits (hcl : cl ∈ srv.users.clients) (huser : cl.user ≠ [])
    (hown : caseEq cl.nick own = false) (hrec : store chan.name = some rec)
    (hsec : rec.secureops = true) (hne : announced srv cl chan ms args full ≠ [])
    (hfits : (announcedLine srv cl chan ms args full).length < 510) :
    ∃ w, watch own store srv cl chan ms args full = some w ∧
      w.letters = walk takesArg true (encode none (announced srv cl chan ms args full))
        ((argsOf (announced srv cl chan ms args full)).map mid) ∧
      w.lookups = ((granted w.letters).filter fun a => !caseEq a own).map
        (wireSvcmemberOne chan.name) := by
  obtain ⟨hnick, hbang⟩ := nickFromSource_clientSource (srv.users.ok.nick_valid cl hcl) huser
  have hhash := valid_channel_head chan.nameValid
  refine ⟨_, by rw [watch, line_eq srv cl chan ms args full hne, if_pos hfits, Option.bind_some,
    parse_announcedLine srv cl chan ms args full hcl hne, Option.map_some], ?_⟩
  simp only [modeWatcher, hhash, if_true, hrec, Option.map_some, Option.getD_some, hnick, hown,
    hsec, watched, Bool.false_eq_true, if_false, filterMap_vetted own _ hbang, true_and]

end SecureOps

/-- A store in which every channel is registered with SECUREOPS. -/
def demoStore (_ : Text) : Option ChanRec := some ⟨true, [], [], [], [], [], [], []⟩

end SekurIRCd
