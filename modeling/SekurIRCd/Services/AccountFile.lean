/-
# The file of the accounts

NickServ's accounts are written to another file, which is synced and renamed; every five minutes at
most the old file is copied before that, and the older copies are shifted.  Opening, writing,
syncing and renaming may fail, the process may be killed between any two of these operations, and
the power may go, when a directory of the past may come back and anything may stand in a file that
was not synced.

Whatever happens, the next start finds a whole database that was saved at some time
(`AccountWorld.restart_loads_saved`): never a corrupt one, so it is never refused and never takes a backup.
It is the last one that was saved, unless the power has gone since.
-/
import SekurIRCd.HistoryFile
import SekurIRCd.Lib.Disk
import SekurIRCd.Lib.JsonPrint

namespace SekurIRCd

open CLib JsonText DiskFiles

/-! ## 1. The text

The file has one record a line, each printed by cJSON under a key that is escaped by hand, so that it
is JSON with blanks between its fields.
-/

/-- `<path>`, `<path>.tmp`, `<path>.bak<i>` and `<path>.corrupt`. -/
inductive StoreFile
  | live
  | tmp
  | bak (i : Nat)
  | corrupt
deriving DecidableEq

/-- The records under their keys. -/
abbrev AccountData := List (Text × Json)

/-- The line of a record: the key, and `cJSON_PrintUnformatted`. -/
def recordLine (f : Text × Json) : Text :=
  '\n' :: (jsonPutString f.1 ++ ':' :: printValue false 0 f.2)

/-- What `accounts_flush` writes. -/
def accountsText (data : AccountData) : Text :=
  '{' :: (joinSep ',' (data.map recordLine) ++ ['\n', '}', '\n'])

/-- What a store can hold: texts without NUL, numbers of at most 15 digits, which cJSON prints as
integers, and fewer levels than cJSON reads, where the file is one more. -/
def PlainData (data : AccountData) : Prop := ∀ f ∈ data, '\x00' ∉ f.1 ∧ Printable 999 f.2

/-- The results of `load_json_object`: 1, 0 and -1. -/
inductive JsonFile
  | object (fields : AccountData)
  | absent
  | corrupt

/-- What `load_json_object` makes of the contents. -/
def parseFile : Text → JsonFile
  | [] => .absent
  | t => match readText (t.takeWhile fun c => c ≠ '\x00') with
    | some (.obj fields) => .object fields
    | _ => .corrupt

/-- `load_json_object`. -/
def loadJsonObject (d : Disk StoreFile) (n : StoreFile) : JsonFile :=
  match d.read n with
  | none => .absent
  | some t => parseFile t

def JsonFile.fields : JsonFile → Option AccountData
  | .object fields => some fields
  | _ => none

/-! ## 2. The process

A flush is a list of operations on files, which section 3 lets stop anywhere.  How far it gets, what
arrives in a copy and what a failed write has left come with the plan of the flush.
-/

/-- What is kept of `account_store_t`. -/
structure AccountProc where
  data : AccountData
  dirty : Bool
  lastBackup : Int

/-- `accounts_load`: the store and what is done to the files, or nothing. -/
def accountsLoad (backupCount : Nat) (d : Disk StoreFile) :
    Option (AccountProc × List (Op StoreFile)) :=
  match loadJsonObject d .live with
  | .object fields => some (⟨fields, false, 0⟩, [])
  | .absent => some (⟨[], false, 0⟩, [])
  | .corrupt =>
    ((List.range backupCount).findSome? fun i => (loadJsonObject d (.bak (i + 1))).fields).map
      fun fields => (⟨fields, true, 0⟩, [.move .live .corrupt])

/-- The files that `rotate_backups` shifts, the last first. -/
def shiftBackups : Nat → List (Op StoreFile)
  | 0 => []
  | 1 => []
  | i + 2 => .move (.bak (i + 1)) (.bak (i + 2)) :: shiftBackups (i + 1)

/-- `rotate_backups`, if it is time: `copy` is what arrives in the new backup, and nothing does
when it cannot be opened. -/
def rotateBackups (backupCount : Nat) (d : Disk StoreFile) (copy : Option (List Text)) :
    List (Op StoreFile) :=
  .remove (.bak backupCount) :: (shiftBackups backupCount ++
    if (d.read .live).isSome then
      (copy.map fun pieces => .create (.bak 1) :: pieces.map (.append (.bak 1))).getD []
    else [])

/-- How writing the new file goes. -/
inductive FlushEnd
  | unopened
  | unbuffered
  | failed (pieces : List Text)
  | unmoved (pieces : List Text)
  | moved (pieces : List Text)

/-- What is done to the files. -/
def FlushEnd.ops : FlushEnd → List (Op StoreFile)
  | .unopened => []
  | .unbuffered => [.create .tmp]
  | .failed pieces => .create .tmp :: (pieces.map (.append .tmp) ++ [.remove .tmp])
  | .unmoved pieces => Disk.writing .tmp pieces ++ [.remove .tmp]
  | .moved pieces => Disk.writing .tmp pieces ++ [.move .tmp .live]

/-- What is in the new file when it is synced is the text.  What fails before may have left anything:
where a record cannot be printed, `accounts_flush` still writes the closing brace. -/
def FlushEnd.Ok (t : Text) : FlushEnd → Prop
  | .unopened => True
  | .unbuffered => True
  | .failed _ => True
  | .unmoved pieces => pieces.flatten = t
  | .moved pieces => pieces.flatten = t

def FlushEnd.isMoved : FlushEnd → Bool
  | .moved _ => true
  | _ => false

/-- What happens around a flush: the time, the copy and the end. -/
structure FlushPlan where
  now : Int
  copy : Option (List Text)
  last : FlushEnd

/-- It is time for a backup. -/
def AccountProc.rotates (p : AccountProc) (backupCount : Nat) (now : Int) : Bool :=
  decide (backupCount ≠ 0 ∧ ¬now - p.lastBackup < 300)

/-- What `accounts_flush` does to the files. -/
def AccountProc.flushOps (p : AccountProc) (backupCount : Nat) (d : Disk StoreFile)
    (plan : FlushPlan) : List (Op StoreFile) :=
  if p.dirty then
    (if p.rotates backupCount plan.now then rotateBackups backupCount d plan.copy else []) ++
      plan.last.ops
  else []

/-- And to the store. -/
def AccountProc.flushed (p : AccountProc) (backupCount : Nat) (plan : FlushPlan) : AccountProc :=
  if p.dirty then
    { p with
      dirty := !plan.last.isMoved
      lastBackup := if p.rotates backupCount plan.now then plan.now else p.lastBackup }
  else p

/-! ## 3. Runs

`saved` and `fresh` are only written: the databases whose flush got to the end, and whether the power
has been on since the last of them.
-/

/-- The disk and the process, what was saved, and whether the power has been on since. -/
structure AccountWorld where
  disk : Disk StoreFile
  proc : Option AccountProc
  saved : List AccountData
  fresh : Bool

inductive AccountEvent
  | start
  | change (data : AccountData)
  | flush (plan : FlushPlan)
  /-- It is killed while it writes, after so many operations. -/
  | killed (plan : FlushPlan) (done : Nat)
  | die
  /-- The power goes; which directory comes back, and what stands in the files. -/
  | powerCut (back : Nat) (junk : Nat → Text)

namespace AccountWorld

variable (backupCount : Nat) (w : AccountWorld)

/-- An empty directory, and nothing that runs. -/
def empty : AccountWorld :=
  ⟨⟨fun _ => none, [], fun _ => [], fun _ => true, 0⟩, none, [], true⟩

/-- The data is saved when the last operation is done, and it renames the file. -/
def record (p : AccountProc) (plan : FlushPlan) : AccountWorld :=
  if p.dirty && plan.last.isMoved then
    { w with saved := w.saved ++ [p.data], fresh := true }
  else w

def step : AccountEvent → AccountWorld
  | .start =>
    match w.proc, accountsLoad backupCount w.disk with
    | none, some (p, ops) => { w with disk := w.disk.execAll ops, proc := some p }
    | _, _ => w
  | .change data =>
    match w.proc with
    | some p => { w with proc := some { p with data := data, dirty := true } }
    | none => w
  | .flush plan =>
    match w.proc with
    | some p =>
      { w.record p plan with
        disk := w.disk.execAll (p.flushOps backupCount w.disk plan)
        proc := some (p.flushed backupCount plan) }
    | none => w
  | .killed plan done =>
    match w.proc with
    | some p =>
      let ops := p.flushOps backupCount w.disk plan
      { (if ops.length ≤ done then w.record p plan else w) with
        disk := w.disk.execAll (ops.take done)
        proc := none }
    | none => w
  | .die => { w with proc := none }
  | .powerCut back junk =>
    { w with
      disk := w.disk.powerCut ((w.disk.dir :: w.disk.past).getD back w.disk.dir) junk
      proc := none
      fresh := false }

/-- What is written is the text of the data, and the data can be written. -/
def Allowed : AccountEvent → Prop
  | .change data => PlainData data
  | .flush plan => ∀ p ∈ w.proc, plan.last.Ok (accountsText p.data)
  | .killed plan _ => ∀ p ∈ w.proc, plan.last.Ok (accountsText p.data)
  | _ => True

end AccountWorld

section Invariant

variable (backupCount : Nat)

/-- One event after the other. -/
def AccountWorld.run (w : AccountWorld) (events : List AccountEvent) : AccountWorld :=
  events.foldl (fun w e => w.step backupCount e) w

def AccountWorld.AllAllowed : AccountWorld → List AccountEvent → Prop
  | _, [] => True
  | w, e :: events => w.Allowed e ∧ AllAllowed (w.step backupCount e) events

end Invariant

/-! ## 4. The text is read back

What cJSON prints it reads (`Lib/JsonPrint`); here the blanks between the records and the keys that
were escaped by hand are added.
-/

theorem accountsText_eq (data : AccountData) : ∃ t, accountsText data = '{' :: t := ⟨_, rfl⟩

theorem nul_jsonPutString (s : Text) : '\x00' ∉ jsonPutString s := by
  have hbody : '\x00' ∉ s.flatMap jsonPutChar := by
    intro h
    obtain ⟨c, -, hc⟩ := List.mem_flatMap.mp h
    revert hc
    rw [jsonPutChar]
    split_ifs with hquote hback hlf hcr htab hctrl
    · decide
    · decide
    · decide
    · decide
    · decide
    · have hall : ∀ n < 0x20, '\x00' ∉ '\\' :: 'u' :: hex4 n := by decide
      exact hall c.toNat hctrl
    · intro hc
      rw [← List.mem_singleton.mp hc] at hctrl
      exact hctrl (by decide)
  simp [jsonPutString, hbody]

theorem nul_accountsText {data : AccountData} (h : PlainData data) :
    '\x00' ∉ accountsText data := by
  refine List.not_mem_cons_of_ne_of_not_mem (by decide)
    (List.not_mem_append (nul_joinSep fun t ht => ?_) (by decide))
  obtain ⟨f, hf, rfl⟩ := List.mem_map.mp ht
  refine List.not_mem_cons_of_ne_of_not_mem (by decide)
    (List.not_mem_append (nul_jsonPutString f.1) ?_)
  exact List.not_mem_cons_of_ne_of_not_mem (by decide) (nul_printValue (h f hf).2 0)

theorem spaced_recordLines {data : AccountData} (h : PlainData data) :
    List.Forall₂ SpacedField data (data.map recordLine) := by
  induction data with
  | nil => exact .nil
  | cons f data ih =>
    refine .cons ?_ (ih fun g hg => h g (List.mem_cons_of_mem _ hg))
    refine ⟨['\n'], f.1.flatMap jsonPutChar, [], printValue false 0 f.2, .cons (by decide) .nil,
      .flatMap fun c _ => writes_jsonPutChar c, .nil,
      writes_printValue (h f List.mem_cons_self).2 0, ?_⟩
    rw [recordLine, jsonPutString, List.cons_append, List.append_assoc, List.singleton_append,
      List.singleton_append, List.nil_append]

/-- **The file is read back.** -/
theorem parseFile_accountsText {data : AccountData} (h : PlainData data) :
    parseFile (accountsText data) = .object data := by
  have hwrites := writes_spaced_obj (spaced_recordLines h) (e := ['\n']) (.cons (by decide) .nil)
  have htext : accountsText data =
      ('{' :: (joinSep ',' (data.map recordLine) ++ (['\n'] ++ ['}']))) ++ ['\n'] := by
    simp [accountsText]
  have htake : (accountsText data).takeWhile (fun c => c ≠ '\x00') = accountsText data := by
    refine List.takeWhile_eq_self_iff.mpr fun c hc => decide_eq_true ?_
    rintro rfl
    exact nul_accountsText h hc
  have hread : readText (accountsText data) = some (.obj data) := by
    have hskip : skipBlanks (accountsText data) = accountsText data :=
      skipBlanks_of_dark (by decide) _
    have hvalue := hwrites.read ((accountsText data).length + 1) ['\n']
      (by rw [htext, List.length_append]; omega) (by simp [Stops, isNumberChar])
    rw [← htext] at hvalue
    rw [readText, hskip, hvalue]
    rfl
  obtain ⟨t, ht⟩ := accountsText_eq data
  have hparse : parseFile (accountsText data) =
      match readText ((accountsText data).takeWhile fun c => c ≠ '\x00') with
      | some (.obj fields) => .object fields
      | _ => .corrupt := by
    rw [ht]
    rfl
  rw [hparse, htake, hread]

/-! ## 5. What is done to the files -/

/-- Nothing that is done is about the database. -/
def Calm (ops : List (Op StoreFile)) : Prop := ∀ op ∈ ops, StoreFile.live ∉ op.names

theorem Calm.append {ops ops' : List (Op StoreFile)} (h : Calm ops) (h' : Calm ops') :
    Calm (ops ++ ops') := by
  intro op hop
  rcases List.mem_append.mp hop with hop | hop
  · exact h op hop
  · exact h' op hop

theorem Calm.take {ops : List (Op StoreFile)} (h : Calm ops) (k : Nat) : Calm (ops.take k) :=
  fun op hop => h op (List.mem_of_mem_take hop)

theorem calm_appends {n : StoreFile} (hn : n ≠ .live) (pieces : List Text) :
    Calm (.create n :: pieces.map (.append n)) := by
  intro op hop
  rcases List.mem_cons.mp hop with rfl | hop
  · exact fun h => hn (List.mem_singleton.mp h).symm
  · obtain ⟨t, -, rfl⟩ := List.mem_map.mp hop
    exact fun h => hn (List.mem_singleton.mp h).symm

theorem calm_writing (pieces : List Text) : Calm (Disk.writing .tmp pieces) := by
  intro op hop
  rw [Disk.names_writing op hop]
  decide

theorem calm_remove : Calm [.remove .tmp] := by
  intro op hop
  rw [List.mem_singleton.mp hop]
  decide

theorem calm_shiftBackups (i : Nat) : Calm (shiftBackups i) := by
  induction i using shiftBackups.induct with
  | case1 => exact nofun
  | case2 => exact nofun
  | case3 i ih =>
    intro op hop
    rcases List.mem_cons.mp hop with rfl | hop
    · simp [Op.names]
    · exact ih op hop

theorem calm_rotateBackups (backupCount : Nat) (d : Disk StoreFile) (copy : Option (List Text)) :
    Calm (rotateBackups backupCount d copy) := by
  intro op hop
  rcases List.mem_cons.mp hop with rfl | hop
  · simp [Op.names]
  · refine (calm_shiftBackups backupCount).append ?_ op hop
    split
    · cases copy with
      | none => exact nofun
      | some pieces => exact calm_appends (by simp) pieces
    · exact nofun

/-- Either nothing is done to the database, or a file that is written and synced is moved there at
the end. -/
theorem flushOps_cases (p : AccountProc) (backupCount : Nat) (d : Disk StoreFile)
    (plan : FlushPlan) :
    (Calm (p.flushOps backupCount d plan) ∧ (p.dirty && plan.last.isMoved) = false) ∨
      (p.dirty && plan.last.isMoved) = true ∧ ∃ before pieces, Calm before ∧
        plan.last = .moved pieces ∧ p.flushOps backupCount d plan =
          (before ++ Disk.writing .tmp pieces) ++ [.move .tmp .live] := by
  rw [AccountProc.flushOps]
  generalize hrotate : (if p.rotates backupCount plan.now then
    rotateBackups backupCount d plan.copy else []) = before
  have hbefore : Calm before := by
    rw [← hrotate]
    split
    · exact calm_rotateBackups backupCount d plan.copy
    · exact nofun
  cases hdirty : p.dirty with
  | false => exact .inl ⟨nofun, rfl⟩
  | true =>
    rw [if_pos rfl]
    cases hlast : plan.last with
    | unopened => exact .inl ⟨hbefore.append nofun, rfl⟩
    | unbuffered => exact .inl ⟨hbefore.append (calm_appends (n := .tmp) (by decide) []), rfl⟩
    | failed pieces =>
      exact .inl ⟨hbefore.append
        ((calm_appends (n := .tmp) (by decide) pieces).append calm_remove), rfl⟩
    | unmoved pieces =>
      exact .inl ⟨hbefore.append ((calm_writing pieces).append calm_remove), rfl⟩
    | moved pieces =>
      exact .inr ⟨rfl, before, pieces, hbefore, rfl, (List.append_assoc ..).symm⟩

/-! ## 6. What holds in every run

`Sound` says of every directory of the past that the database it names was synced before it was
named, so that no power cut can bring back another.
-/

namespace AccountWorld

/-- The database is the one of `data`; there is none when nothing was saved. It is what a start
would load. -/
def Holds (d : Disk StoreFile) (data : AccountData) : Prop :=
  d.read .live = some (accountsText data) ∨ d.read .live = none ∧ data = []

/-- What every event keeps. Under the live name is always a whole text of a state that was saved,
at any point where the machine may stop. -/
structure Sound (w : AccountWorld) : Prop where
  tidy : w.disk.AllTidy
  guarded : w.disk.Guards .live fun t => ∃ data ∈ w.saved, t = accountsText data
  plain : ∀ data ∈ w.saved, PlainData data
  last : w.fresh = true → w.disk.read .live = w.saved.getLast?.map accountsText
  procPlain : ∀ p ∈ w.proc, PlainData p.data
  clean : ∀ p ∈ w.proc, p.dirty = false → Holds w.disk p.data

variable {backupCount : Nat} {w : AccountWorld}

theorem Sound.load (h : w.Sound) (backupCount : Nat) : ∃ data,
    accountsLoad backupCount w.disk = some (⟨data, false, 0⟩, []) ∧ Holds w.disk data ∧
      PlainData data ∧ (data ∈ w.saved ∨ w.disk.read .live = none ∧ data = []) := by
  cases hread : w.disk.read .live with
  | none =>
    have habsent : loadJsonObject w.disk .live = .absent := by rw [loadJsonObject, hread]
    exact ⟨[], by rw [accountsLoad, habsent], .inr ⟨hread, rfl⟩, nofun, .inr ⟨rfl, rfl⟩⟩
  | some t =>
    obtain ⟨data, hdata, rfl⟩ := h.guarded.read hread
    have hobject : loadJsonObject w.disk .live = .object data := by
      rw [loadJsonObject, hread]
      exact parseFile_accountsText (h.plain data hdata)
    exact ⟨data, by rw [accountsLoad, hobject], .inl hread, h.plain data hdata, .inl hdata⟩

theorem Sound.stopped (h : w.Sound) : Sound { w with proc := none } where
  tidy := h.tidy
  guarded := h.guarded
  plain := h.plain
  last := h.last
  procPlain := nofun
  clean := nofun

theorem Sound.execCalm (h : w.Sound) {ops : List (Op StoreFile)} (hops : Calm ops) :
    Sound { w with disk := w.disk.execAll ops } := by
  have hread : (w.disk.execAll ops).read .live = w.disk.read .live :=
    Disk.read_execAll h.tidy hops
  refine ⟨h.tidy.execAll ops, h.guarded.execAll h.tidy hops, h.plain, fun hfresh => ?_,
    h.procPlain, fun p hp hclean => ?_⟩
  · exact hread.trans (h.last hfresh)
  · rw [Holds, hread]
    exact h.clean p hp hclean

/-- **The database is replaced.** -/
theorem Sound.moved (h : w.Sound) {before : List (Op StoreFile)} {pieces : List Text}
    {data : AccountData} (hbefore : Calm before) (hpieces : pieces.flatten = accountsText data)
    (hplain : PlainData data) {q : Option AccountProc}
    (hq : ∀ p ∈ q, p.data = data) :
    Sound ⟨w.disk.execAll ((before ++ Disk.writing .tmp pieces) ++ [.move .tmp .live]), q,
      w.saved ++ [data], true⟩ := by
  have hcalm : Calm (before ++ Disk.writing .tmp pieces) := hbefore.append (calm_writing pieces)
  have htidy := h.tidy.execAll (before ++ Disk.writing .tmp pieces)
  have hguarded := h.guarded.execAll h.tidy hcalm
  obtain ⟨i, hdir, hsafe, hdata⟩ :=
    Disk.execAll_writing (d := w.disk.execAll before) (.tmp : StoreFile) pieces
  rw [← Disk.execAll_append] at hdir hsafe hdata
  rw [hpieces] at hdata
  generalize hd : w.disk.execAll (before ++ Disk.writing .tmp pieces) = d at *
  have hall : w.disk.execAll ((before ++ Disk.writing .tmp pieces) ++ [.move .tmp .live]) =
      d.exec (.move .tmp .live) := by
    rw [Disk.execAll_append, hd]
    rfl
  rw [hall]
  have hread : (d.exec (.move .tmp .live)).read .live = some (accountsText data) := by
    rw [Disk.read_move (by decide) hdir, hdata]
  refine ⟨htidy.exec _, ?_, ?_, fun _ => ?_, fun p hp => ?_, fun p hp _ => ?_⟩
  · refine Disk.Guards.replace (hguarded.mono ?_) htidy (by decide) hdir hsafe ?_
    · rintro t ⟨old, hold, rfl⟩
      exact ⟨old, List.mem_append_left _ hold, rfl⟩
    · exact ⟨data, List.mem_append_right _ List.mem_cons_self, hdata⟩
  · intro old hold
    rcases List.mem_append.mp hold with hold | hold
    · exact h.plain old hold
    · rw [List.mem_singleton.mp hold]
      exact hplain
  · rw [List.getLast?_concat]
    exact hread
  · rw [hq p hp]
    exact hplain
  · rw [hq p hp]
    exact .inl hread

theorem record_of_not_moved (w : AccountWorld) {p : AccountProc} {plan : FlushPlan}
    (h : (p.dirty && plan.last.isMoved) = false) : w.record p plan = w := by
  rw [record, h]
  rfl

/-- A flush, whatever its end, and what is left of the process. -/
theorem Sound.flush (h : w.Sound) {p : AccountProc} (hp : p ∈ w.proc) {plan : FlushPlan}
    (hplan : plan.last.Ok (accountsText p.data)) {q : Option AccountProc}
    (hdata : ∀ r ∈ q, r.data = p.data)
    (hdirty : ∀ r ∈ q, r.dirty = false → p.dirty = false ∨ plan.last.isMoved = true) :
    Sound { w.record p plan with
      disk := w.disk.execAll (p.flushOps backupCount w.disk plan), proc := q } := by
  rcases flushOps_cases p backupCount w.disk plan with
    ⟨hcalm, hmoved⟩ | ⟨hmoved, before, pieces, hbefore, hlast, hops⟩
  · rw [record_of_not_moved w hmoved]
    have hexec := h.execCalm hcalm
    refine ⟨hexec.tidy, hexec.guarded, hexec.plain, hexec.last, fun r hr => ?_,
      fun r hr hclean => ?_⟩
    · rw [hdata r hr]
      exact h.procPlain p hp
    · have hpclean : p.dirty = false := by
        rcases hdirty r hr hclean with hclean | hlast
        · exact hclean
        · rwa [hlast, Bool.and_true] at hmoved
      rw [hdata r hr]
      exact hexec.clean p hp hpclean
  · have hpieces : pieces.flatten = accountsText p.data := by
      rw [hlast] at hplan
      exact hplan
    rw [record, if_pos hmoved, hops]
    exact h.moved hbefore hpieces (h.procPlain p hp) hdata

theorem Sound.killed (h : w.Sound) {p : AccountProc} (hp : p ∈ w.proc) {plan : FlushPlan}
    (hplan : plan.last.Ok (accountsText p.data)) (done : Nat) :
    Sound { (if (p.flushOps backupCount w.disk plan).length ≤ done then w.record p plan else w) with
      disk := w.disk.execAll ((p.flushOps backupCount w.disk plan).take done), proc := none } := by
  by_cases hall : (p.flushOps backupCount w.disk plan).length ≤ done
  · rw [if_pos hall, List.take_of_length_le hall]
    exact h.flush hp hplan (q := none) nofun nofun
  · rw [if_neg hall]
    have hcalm : Calm ((p.flushOps backupCount w.disk plan).take done) := by
      rcases flushOps_cases p backupCount w.disk plan with
        ⟨hcalm, -⟩ | ⟨-, before, pieces, hbefore, -, hops⟩
      · exact hcalm.take done
      · rw [hops, List.length_append, List.length_singleton] at hall
        rw [hops, List.take_append_of_le_length (by omega)]
        exact (hbefore.append (calm_writing pieces)).take done
    exact (h.execCalm hcalm).stopped

/-- **What an event keeps.** -/
theorem Sound.step (h : w.Sound) {e : AccountEvent} (he : w.Allowed e) :
    (w.step backupCount e).Sound := by
  cases e with
  | start =>
    obtain ⟨data, hload, hholds, hplain, -⟩ := h.load backupCount
    cases hproc : w.proc with
    | none =>
      simp only [AccountWorld.step, hproc, hload]
      refine ⟨h.tidy, h.guarded, h.plain, h.last, fun p hp => ?_, fun p hp _ => ?_⟩
      · cases hp
        exact hplain
      · cases hp
        exact hholds
    | some p =>
      simp only [AccountWorld.step, hproc]
      exact h
  | change data =>
    cases hproc : w.proc with
    | none =>
      simp only [AccountWorld.step, hproc]
      exact h
    | some p =>
      simp only [AccountWorld.step, hproc]
      refine ⟨h.tidy, h.guarded, h.plain, h.last, fun q hq => ?_, fun q hq hclean => ?_⟩
      · cases hq
        exact he
      · cases hq
        cases hclean
  | flush plan =>
    cases hproc : w.proc with
    | none =>
      simp only [AccountWorld.step, hproc]
      exact h
    | some p =>
      simp only [AccountWorld.step, hproc]
      refine h.flush hproc (he p hproc) (fun r hr => ?_) fun r hr hclean => ?_
      · cases hr
        rw [AccountProc.flushed]
        split <;> rfl
      · cases hr
        cases hdirty : p.dirty with
        | false => exact .inl rfl
        | true =>
          rw [AccountProc.flushed, if_pos hdirty] at hclean
          exact .inr (by simpa using hclean)
  | killed plan done =>
    cases hproc : w.proc with
    | none =>
      simp only [AccountWorld.step, hproc]
      exact h
    | some p =>
      simp only [AccountWorld.step, hproc]
      exact h.killed hproc (he p hproc) done
  | die => exact h.stopped
  | powerCut back junk =>
    have hdir : (w.disk.dir :: w.disk.past).getD back w.disk.dir ∈ w.disk.dir :: w.disk.past := by
      rw [List.getD_eq_getElem?_getD]
      cases hget : (w.disk.dir :: w.disk.past)[back]? with
      | none => exact List.mem_cons_self
      | some dir => exact List.mem_of_getElem? hget
    exact ⟨h.tidy.powerCut hdir junk, h.guarded.powerCut h.tidy hdir junk, h.plain, nofun, nofun,
      nofun⟩

theorem Sound.run (h : w.Sound) {events : List AccountEvent}
    (hevents : AllAllowed backupCount w events) : (w.run backupCount events).Sound := by
  induction events generalizing w with
  | nil => exact h
  | cons e events ih => exact ih (h.step hevents.1) hevents.2

theorem sound_empty : Sound empty where
  tidy := by
    intro dir hdir
    rw [List.mem_singleton.mp hdir]
    exact ⟨nofun, nofun⟩
  guarded := by
    intro dir hdir i hi
    rw [List.mem_singleton.mp hdir] at hi
    cases hi
  plain := nofun
  last := fun _ => rfl
  procPlain := nofun
  clean := nofun

/-- **A start after any run** is not refused, needs no backup and finds a whole database: one that
was saved, or none at all; the last one, unless the power has gone since; and the one of a process
that has nothing left to save. -/
theorem restart_loads_saved (backupCount : Nat) {events : List AccountEvent}
    (hevents : AllAllowed backupCount empty events) :
    ∃ data, accountsLoad backupCount (empty.run backupCount events).disk =
        some (⟨data, false, 0⟩, []) ∧
      (data ∈ (empty.run backupCount events).saved ∨
        (empty.run backupCount events).disk.read .live = none ∧ data = []) ∧
      ((empty.run backupCount events).fresh = true →
        data = (empty.run backupCount events).saved.getLast?.getD []) ∧
      ∀ p, (empty.run backupCount events).proc = some p → p.dirty = false → data = p.data := by
  have h := sound_empty.run hevents
  generalize empty.run backupCount events = w at *
  obtain ⟨data, hload, hholds, hplain, hsaved⟩ := h.load backupCount
  -- two databases that are both the file's
  have hunique : ∀ other, PlainData other → Holds w.disk other → data = other := by
    intro other hother hfile
    rcases hholds with hread | ⟨hread, rfl⟩ <;> rcases hfile with hread' | ⟨hread', rfl⟩
    · have htext := Option.some.inj (hread.symm.trans hread')
      have hparse := parseFile_accountsText hplain
      rw [htext, parseFile_accountsText hother] at hparse
      exact (JsonFile.object.inj hparse).symm
    · rw [hread'] at hread
      cases hread
    · rw [hread] at hread'
      cases hread'
    · rfl
  refine ⟨data, hload, hsaved, fun hfresh => ?_, fun p hp hclean => ?_⟩
  · have hlast := h.last hfresh
    cases hget : w.saved.getLast? with
    | none =>
      rw [hget] at hlast
      exact hunique [] nofun (.inr ⟨hlast, rfl⟩)
    | some other =>
      rw [hget] at hlast
      exact hunique other (h.plain other (List.mem_of_getLast? hget)) (.inl hlast)
  · exact hunique p.data (h.procPlain p hp) (h.clean p hp hclean)

/-- One account. -/
def aliceData : AccountData :=
  [("alice".toList, .obj [("name".toList, .str "Alice".toList), ("updated_at".toList, .num 7)])]

theorem plain_aliceData : PlainData aliceData := by
  intro f hf
  rw [List.mem_singleton.mp hf]
  refine ⟨by decide, .obj (fun g hg => ?_) fun g hg => ?_⟩
  · rcases List.mem_cons.mp hg with rfl | hg
    · decide
    · rw [List.mem_singleton.mp hg]
      decide
  · rcases List.mem_cons.mp hg with rfl | hg
    · exact .str (by decide)
    · rw [List.mem_singleton.mp hg]
      exact .num (by decide) (by decide)

/-- It cannot be printed at first, and is saved then; and the process is killed while it writes that
there is none. -/
def aliceEvents : List AccountEvent :=
  [.start, .change aliceData, .flush ⟨999, none, .failed ["\x7b\n\x7d\n".toList]⟩,
    .flush ⟨1000, none, .moved [accountsText aliceData]⟩, .change [],
    .killed ⟨1001, none, .moved [accountsText []]⟩ 2]

theorem restart_loads_alice : ∃ data,
    accountsLoad 3 (empty.run 3 aliceEvents).disk = some (⟨data, false, 0⟩, []) ∧
      data = aliceData := by
  have hallowed : AllAllowed 3 empty aliceEvents := by
    refine ⟨trivial, plain_aliceData, fun _ _ => trivial, fun p hp => ?_, nofun, fun p hp => ?_,
      trivial⟩
    · cases hp
      exact List.append_nil _
    · cases hp
      rfl
  obtain ⟨data, hload, -, hlast, -⟩ := restart_loads_saved 3 hallowed
  exact ⟨data, hload, hlast rfl⟩

end AccountWorld

end SekurIRCd
