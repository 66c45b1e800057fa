/-
# Who watches whom

A client has two lists of nicks, for MONITOR and for WATCH, and for each of the two the server
keeps an index that leads from a nick to the clients that list it (`Lib.Buckets`).  `n_watchers`
counts the clients with something in either list, so that nothing is looked up while there is none.

After every run both indexes are the lists read the other way, none leads to a client that is
gone, and the counter is right (`watch_indexes_exact`).
-/
import SekurIRCd.Lib.Buckets
import SekurIRCd.Proto
import SekurIRCd.Client

namespace SekurIRCd

open CLib Buckets

/-! ## 1. The lists and the indexes

A client's lists are its own, and an index leads back from a nick. Each of the two is kept by hand
in the code. -/

/-- The lists of a client, casefolded, and whether it is counted as a watcher. The last is a flag
of its own, which has to follow the lists. -/
structure Watcher where
  monitor : List Text
  watch : List Text
  isWatcher : Bool
deriving DecidableEq

def Watcher.blank : Watcher := ⟨[], [], false⟩

/-- Something is in one of the lists. -/
def Watcher.watches (c : Watcher) : Bool := !c.monitor.isEmpty || !c.watch.isEmpty

/-- The clients that are there, what each has, and the two indexes. -/
structure Watchers where
  all : List Nat
  cl : Nat → Watcher
  monIdx : Index Text Nat
  watchIdx : Index Text Nat
  nWatchers : Int

def Watchers.start : Watchers := ⟨[], fun _ => .blank, [], [], 0⟩

/-- `MAX_MONITOR`. -/
def maxMonitor : Nat := 100

/-- `MAX_WATCH`. -/
def maxWatch : Nat := 128

/-- The loop of MONITOR + over the list alone. -/
def monitorListAdd (l : List Text) : List Text → List Text
  | [] => l
  | t :: ts =>
    if maxMonitor ≤ l.length then l
    else
      let cf := ircCasefold nickLen t
      monitorListAdd (if l.contains cf then l else l ++ [cf]) ts

/-- What MONITOR is to make of a client's list.  The command is modelled three times, with the
notices it sends (`Monitors`), with the index it keeps (`Watchers`) and with the block the list
stands in (`GrownLists`); this list is what the three have in common. -/
def monitorList (l params : List Text) : List Text :=
  let sub := (clip 8 (params.getD 0 [])).map Char.toUpper
  let targets := strtok ',' (clip 600 (params.getD 1 []))
  if sub = "+".toList ∨ sub = "-".toList then
    if params.length < 2 then l
    else if sub = "-".toList then targets.foldl (fun l t => l.erase (ircCasefold nickLen t)) l
    else monitorListAdd l targets
  else if sub = "C".toList then []
  else l

namespace Watchers

variable (s : Watchers)

/-- Another record for a client. -/
def write (p : Nat) (c : Watcher) : Watchers := { s with cl := Function.update s.cl p c }

/-! ## 2. The commands

What the two commands do to list and index, entry by entry, and what becomes of both when a client
goes. -/

/-- `monitor_discard`. -/
def monitorDiscard (p : Nat) (cf : Text) : Watchers :=
  if (s.cl p).monitor.contains cf then
    { s.write p { s.cl p with monitor := strike cf (s.cl p).monitor } with
      monIdx := s.monIdx.del p cf }
  else s

/-- A nick of MONITOR +, when the list is not full. -/
def monitorAdd (p : Nat) (cf : Text) : Watchers :=
  if (s.cl p).monitor.contains cf then s
  else
    { s.write p { s.cl p with monitor := (s.cl p).monitor ++ [cf] } with
      monIdx := s.monIdx.add p cf }

/-- The loop of MONITOR +, up to `MAX_MONITOR`. -/
def monitorAddAll (p : Nat) (s : Watchers) : List Text → Watchers
  | [] => s
  | t :: ts =>
    if maxMonitor ≤ (s.cl p).monitor.length then s
    else monitorAddAll p (s.monitorAdd p (ircCasefold nickLen t)) ts

/-- `monitor_impl`, less its replies. -/
def monitorImpl (p : Nat) (params : List Text) : Watchers :=
  let sub := (clip 8 (params.getD 0 [])).map Char.toUpper
  let targets := strtok ',' (clip 600 (params.getD 1 []))
  if sub = "+".toList ∨ sub = "-".toList then
    if params.length < 2 then s
    else if sub = "-".toList then
      targets.foldl (fun s t => s.monitorDiscard p (ircCasefold nickLen t)) s
    else monitorAddAll p s targets
  else if sub = "C".toList then
    { s.write p { s.cl p with monitor := [] } with
      monIdx := (s.cl p).monitor.foldl (fun ix k => ix.del p k) s.monIdx }
  else s

/-- `watch_discard`. -/
def watchDiscard (p : Nat) (cf : Text) : Watchers :=
  if (s.cl p).watch.contains cf then
    { s.write p { s.cl p with watch := strike cf (s.cl p).watch } with
      watchIdx := s.watchIdx.del p cf }
  else s

/-- One parameter of WATCH. -/
def watchToken (p : Nat) (tok : Text) : Watchers :=
  let cf := ircCasefold nickLen (tok.drop 1)
  if tok.head? = some '+' ∨ tok.head? = some '-' then
    if cf = [] then s
    else if tok.head? = some '-' then s.watchDiscard p cf
    else if (s.cl p).watch.contains cf then s
    else if maxWatch ≤ (s.cl p).watch.length then s
    else
      { s.write p { s.cl p with watch := (s.cl p).watch ++ [cf] } with
        watchIdx := s.watchIdx.add p cf }
  else if caseEq tok ['C'] then
    { s.write p { s.cl p with watch := [] } with
      watchIdx := (s.cl p).watch.foldl (fun ix k => ix.del p k) s.watchIdx }
  else s

/-- `watch_impl`, less its replies. -/
def watchImpl (p : Nat) (params : List Text) : Watchers :=
  params.foldl (fun s tok => s.watchToken p tok) s

/-- `refresh_watcher_flag`. -/
def refreshWatcherFlag (p : Nat) : Watchers :=
  let now := (s.cl p).watches
  if now ≠ (s.cl p).isWatcher then
    { s.write p { s.cl p with isWatcher := now } with
      nWatchers := s.nWatchers + if now then 1 else -1 }
  else s

/-- `server_watch_index_drop`. -/
def serverWatchIndexDrop (p : Nat) : Watchers :=
  { s with
    monIdx := (s.cl p).monitor.foldl (fun ix k => ix.del p k) s.monIdx
    watchIdx := (s.cl p).watch.foldl (fun ix k => ix.del p k) s.watchIdx }

/-- `server_remove_client`, with `client_free`. -/
def removeClient (p : Nat) : Watchers :=
  let s := { s with nWatchers := if (s.cl p).isWatcher then s.nWatchers - 1 else s.nWatchers }
  let s := s.serverWatchIndexDrop p
  { s.write p .blank with all := s.all.erase p }

end Watchers

/-- What can happen to the lists. -/
inductive WatchEvent
  | connect (p : Nat)
  | monitor (p : Nat) (params : List Text)
  | watch (p : Nat) (params : List Text)
  | remove (p : Nat)

/-- A client comes under a number that is free; the others are there. -/
def watchStep (s : Watchers) : WatchEvent → Watchers
  | .connect p => if s.all.contains p then s else { s.write p .blank with all := s.all ++ [p] }
  | .monitor p params => if s.all.contains p then (s.monitorImpl p params).refreshWatcherFlag p else s
  | .watch p params => if s.all.contains p then (s.watchImpl p params).refreshWatcherFlag p else s
  | .remove p => if s.all.contains p then s.removeClient p else s

/-! ## 3. What holds -/

namespace Watchers

/-- Both indexes mirror the lists, which only those have who are there. -/
structure Mirrored (s : Watchers) : Prop where
  all : s.all.Nodup
  gone : ∀ p, p ∉ s.all → s.cl p = .blank
  mon : Mirrors s.monIdx fun p => (s.cl p).monitor
  watch : Mirrors s.watchIdx fun p => (s.cl p).watch

/-- The watchers are marked and counted. -/
structure Counted (s : Watchers) : Prop where
  marked : ∀ p, (s.cl p).isWatcher = (s.cl p).watches
  count : s.nWatchers = ((s.all.filter fun p => (s.cl p).isWatcher).length : Int)

/-! ## 4. The lists -/

@[simp] theorem cl_write_self (s : Watchers) (p : Nat) (c : Watcher) : (s.write p c).cl p = c :=
  Function.update_self ..

theorem cl_write_of_ne (s : Watchers) {p q : Nat} (h : q ≠ p) (c : Watcher) :
    (s.write p c).cl q = s.cl q :=
  Function.update_of_ne h ..

theorem row_write {α : Type} (f : Watcher → α) (s : Watchers) (p : Nat) (c : Watcher) :
    (fun q => f ((s.write p c).cl q)) = Function.update (fun q => f (s.cl q)) p (f c) := by
  funext q
  by_cases hq : q = p
  · rw [hq, Function.update_self, cl_write_self]
  · rw [Function.update_of_ne hq, cl_write_of_ne s hq]

/-- A field that a new record has as the old one. -/
theorem row_write_same {α : Type} (f : Watcher → α) {s : Watchers} {p : Nat} {c : Watcher}
    (h : f c = f (s.cl p)) : (fun q => f ((s.write p c).cl q)) = fun q => f (s.cl q) := by
  rw [row_write, h]
  exact Function.update_eq_self p fun q => f (s.cl q)

/-- The lists of one client were edited, and the indexes with them. -/
structure Edited (p : Nat) (s t : Watchers) : Prop where
  all : t.all = s.all
  counter : t.nWatchers = s.nWatchers
  others : ∀ q, q ≠ p → t.cl q = s.cl q
  flag : (t.cl p).isWatcher = (s.cl p).isWatcher
  mirrored : p ∈ s.all → s.Mirrored → t.Mirrored

variable {s t u : Watchers} {p : Nat}

theorem Edited.refl (p : Nat) (s : Watchers) : Edited p s s :=
  ⟨rfl, rfl, fun _ _ => rfl, rfl, fun _ h => h⟩

theorem Edited.trans (h : Edited p s t) (h' : Edited p t u) : Edited p s u where
  all := h'.all.trans h.all
  counter := h'.counter.trans h.counter
  others := fun q hq => (h'.others q hq).trans (h.others q hq)
  flag := h'.flag.trans h.flag
  mirrored := fun hp hs => h'.mirrored (h.all ▸ hp) (h.mirrored hp hs)

theorem Mirrored.gone_write (h : s.Mirrored) (hp : p ∈ s.all) (c : Watcher) (q : Nat)
    (hq : q ∉ s.all) : (s.write p c).cl q = .blank := by
  have hne : q ≠ p := by rintro rfl; exact hq hp
  exact (Function.update_of_ne hne _ _).trans (h.gone q hq)

/-- New lists of one client, with indexes that mirror them. -/
theorem edited_write {c : Watcher} {mi wi : Index Text Nat}
    (hflag : c.isWatcher = (s.cl p).isWatcher)
    (hmon : Mirrors s.monIdx (fun q => (s.cl q).monitor) →
      Mirrors mi (Function.update (fun q => (s.cl q).monitor) p c.monitor))
    (hwatch : Mirrors s.watchIdx (fun q => (s.cl q).watch) →
      Mirrors wi (Function.update (fun q => (s.cl q).watch) p c.watch)) :
    Edited p s { s.write p c with monIdx := mi, watchIdx := wi } where
  all := rfl
  counter := rfl
  others := fun q hq => Function.update_of_ne hq _ _
  flag := (congrArg Watcher.isWatcher (cl_write_self s p c)).trans hflag
  mirrored := fun hp hs =>
    { all := hs.all
      gone := hs.gone_write hp _
      mon := by
        show Mirrors mi fun q => ((s.write p c).cl q).monitor
        rw [row_write Watcher.monitor]
        exact hmon hs.mon
      watch := by
        show Mirrors wi fun q => ((s.write p c).cl q).watch
        rw [row_write Watcher.watch]
        exact hwatch hs.watch }

theorem edited_monitor {l : List Text} {ix : Index Text Nat}
    (h : Mirrors s.monIdx (fun q => (s.cl q).monitor) →
      Mirrors ix (Function.update (fun q => (s.cl q).monitor) p l)) :
    Edited p s { s.write p { s.cl p with monitor := l } with monIdx := ix } :=
  edited_write rfl h fun hw => (Function.update_eq_self p fun q => (s.cl q).watch).symm ▸ hw

theorem edited_watch {l : List Text} {ix : Index Text Nat}
    (h : Mirrors s.watchIdx (fun q => (s.cl q).watch) →
      Mirrors ix (Function.update (fun q => (s.cl q).watch) p l)) :
    Edited p s { s.write p { s.cl p with watch := l } with watchIdx := ix } :=
  edited_write rfl (fun hm => (Function.update_eq_self p fun q => (s.cl q).monitor).symm ▸ hm) h

/-! ## 5. The commands -/

theorem edited_foldl {α : Type} (f : Watchers → α → Watchers) (h : ∀ s x, Edited p s (f s x)) :
    ∀ (xs : List α) (s : Watchers), Edited p s (xs.foldl f s)
  | [], s => .refl p s
  | x :: xs, s => (h s x).trans (edited_foldl f h xs (f s x))

theorem edited_monitorDiscard (p : Nat) (s : Watchers) (cf : Text) :
    Edited p s (s.monitorDiscard p cf) := by
  unfold monitorDiscard
  split
  · exact edited_monitor fun h => h.del p cf
  · exact .refl p s

theorem edited_monitorAdd (p : Nat) (s : Watchers) (cf : Text) :
    Edited p s (s.monitorAdd p cf) := by
  unfold monitorAdd
  split
  · exact .refl p s
  · next hnew => exact edited_monitor fun h => h.add fun hin => hnew (List.contains_iff_mem.mpr hin)

theorem edited_monitorAddAll (p : Nat) : ∀ (ts : List Text) (s : Watchers),
    Edited p s (s.monitorAddAll p ts)
  | [], s => .refl p s
  | t :: ts, s => by
    rw [monitorAddAll]
    split
    · exact .refl p s
    · exact (edited_monitorAdd p s _).trans (edited_monitorAddAll p ts _)

theorem edited_monitorImpl (p : Nat) (s : Watchers) (params : List Text) :
    Edited p s (s.monitorImpl p params) := by
  unfold monitorImpl
  dsimp only
  split
  · split
    · exact .refl p s
    · split
      · exact edited_foldl _ (fun s t => edited_monitorDiscard p s _) _ s
      · exact edited_monitorAddAll p _ s
  · split
    · exact edited_monitor fun h => h.clear p
    · exact .refl p s

theorem edited_watchToken (p : Nat) (s : Watchers) (tok : Text) :
    Edited p s (s.watchToken p tok) := by
  unfold watchToken
  dsimp only
  split
  · split
    · exact .refl p s
    · split
      · unfold watchDiscard
        split
        · exact edited_watch fun h => h.del p _
        · exact .refl p s
      · split
        · exact .refl p s
        · next hnew =>
          split
          · exact .refl p s
          · exact edited_watch fun h => h.add fun hin => hnew (List.contains_iff_mem.mpr hin)
  · split
    · exact edited_watch fun h => h.clear p
    · exact .refl p s

theorem edited_watchImpl (p : Nat) (s : Watchers) (params : List Text) :
    Edited p s (s.watchImpl p params) :=
  edited_foldl _ (fun s tok => edited_watchToken p s tok) params s

/-! ## 6. The list of MONITOR -/

@[simp] theorem write_cl_self (s : Watchers) (p : Nat) (c : Watcher) : (s.write p c).cl p = c :=
  Function.update_self ..

theorem strike_eq_erase (cf : Text) (l : List Text) : strike cf l = l.erase cf := by
  rw [strike]
  congr
  exact lawful_beq_subsingleton _ _

theorem monitorDiscard_monitor (s : Watchers) (p : Nat) (cf : Text) :
    ((s.monitorDiscard p cf).cl p).monitor = (s.cl p).monitor.erase cf := by
  unfold monitorDiscard
  split
  · simp only [write_cl_self, strike_eq_erase]
  · next hout => exact (List.erase_of_not_mem fun h => hout (List.contains_iff_mem.mpr h)).symm

theorem monitorAdd_monitor (s : Watchers) (p : Nat) (cf : Text) :
    ((s.monitorAdd p cf).cl p).monitor =
      if (s.cl p).monitor.contains cf then (s.cl p).monitor else (s.cl p).monitor ++ [cf] := by
  unfold monitorAdd
  split <;> simp

theorem monitorDiscard_foldl (p : Nat) : ∀ (ts : List Text) (s : Watchers),
    ((ts.foldl (fun s t => s.monitorDiscard p (ircCasefold nickLen t)) s).cl p).monitor =
      ts.foldl (fun l t => l.erase (ircCasefold nickLen t)) (s.cl p).monitor
  | [], _ => rfl
  | t :: ts, s => by
    rw [List.foldl_cons, monitorDiscard_foldl p ts, monitorDiscard_monitor, List.foldl_cons]

theorem monitorAddAll_monitor (p : Nat) : ∀ (ts : List Text) (s : Watchers),
    ((s.monitorAddAll p ts).cl p).monitor = monitorListAdd (s.cl p).monitor ts
  | [], _ => rfl
  | t :: ts, s => by
    rw [monitorAddAll, monitorListAdd]
    split
    · rfl
    · rw [monitorAddAll_monitor p ts, monitorAdd_monitor]

/-- **MONITOR edits the list that the index mirrors as it should.** -/
theorem monitorImpl_monitor (s : Watchers) (p : Nat) (params : List Text) :
    ((s.monitorImpl p params).cl p).monitor = monitorList (s.cl p).monitor params := by
  simp only [monitorImpl, monitorList]
  split
  · split
    · rfl
    · split
      · exact monitorDiscard_foldl p _ s
      · exact monitorAddAll_monitor p _ s
  · split
    · rw [write_cl_self]
    · rfl

/-! ## 7. The counter -/

theorem length_filter_erase {l : List Nat} (hp : p ∈ l) (f : Nat → Bool) :
    ((l.filter f).length : Int) = ((l.erase p).filter f).length + if f p then 1 else 0 := by
  have hperm := ((List.perm_cons_erase hp).filter f).length_eq
  rw [hperm, List.filter_cons]
  split <;> simp

theorem filter_erase_congr {l : List Nat} (hl : l.Nodup) {f g : Nat → Bool}
    (h : ∀ q, q ≠ p → f q = g q) : (l.erase p).filter f = (l.erase p).filter g :=
  List.filter_congr fun q hq => h q fun hqp => hl.not_mem_erase (hqp ▸ hq)

/-- Behind a command the flag is refreshed, and the count is right again. -/
theorem refreshed (hs : s.Mirrored) (hc : s.Counted) (hp : p ∈ s.all) (he : Edited p s t) :
    (t.refreshWatcherFlag p).Mirrored ∧ (t.refreshWatcherFlag p).Counted := by
  have ht := he.mirrored hp hs
  have hpt : p ∈ t.all := he.all ▸ hp
  have hmarked : ∀ q, q ≠ p → (t.cl q).isWatcher = (t.cl q).watches := fun q hq => by
    rw [he.others q hq, hc.marked]
  have hcount : t.nWatchers = ((t.all.filter fun q => (t.cl q).isWatcher).length : Int) := by
    rw [he.counter, hc.count, he.all]
    congr 2
    refine List.filter_congr fun q _ => ?_
    by_cases hq : q = p
    · rw [hq, he.flag]
    · rw [he.others q hq]
  unfold refreshWatcherFlag
  dsimp only
  split
  · next hne =>
    generalize hnow : (t.cl p).watches = now at hne
    let c : Watcher := { t.cl p with isWatcher := now }
    have hflags : ∀ q, q ≠ p → ((t.write p c).cl q).isWatcher = (t.cl q).isWatcher := fun q hq => by
      rw [cl_write_of_ne t hq]
    refine ⟨⟨ht.all, ht.gone_write hpt c, ?_, ?_⟩, fun q => ?_, ?_⟩
    · show Mirrors t.monIdx fun q => ((t.write p c).cl q).monitor
      rw [row_write_same Watcher.monitor (show c.monitor = (t.cl p).monitor from rfl)]
      exact ht.mon
    · show Mirrors t.watchIdx fun q => ((t.write p c).cl q).watch
      rw [row_write_same Watcher.watch (show c.watch = (t.cl p).watch from rfl)]
      exact ht.watch
    · show ((t.write p c).cl q).isWatcher = ((t.write p c).cl q).watches
      by_cases hq : q = p
      · rw [hq, cl_write_self]
        exact hnow.symm
      · rw [cl_write_of_ne t hq]
        exact hmarked q hq
    · show t.nWatchers + (if now = true then 1 else -1) =
        ((t.all.filter fun q => ((t.write p c).cl q).isWatcher).length : Int)
      have hself : ((t.write p c).cl p).isWatcher = now := by rw [cl_write_self]
      rw [hcount, length_filter_erase hpt, length_filter_erase (l := t.all) hpt, hself,
        filter_erase_congr ht.all hflags]
      cases now <;> cases hold : (t.cl p).isWatcher <;> simp [hold] at hne ⊢
  · next heq =>
    refine ⟨ht, fun q => ?_, hcount⟩
    by_cases hq : q = p
    · rw [hq]
      exact (not_not.mp heq).symm
    · exact hmarked q hq

/-! ## 8. Runs -/

theorem removed (hs : s.Mirrored) (hc : s.Counted) (hp : p ∈ s.all) :
    (s.removeClient p).Mirrored ∧ (s.removeClient p).Counted := by
  have hflags : ∀ q, q ≠ p → ((s.write p .blank).cl q).isWatcher = (s.cl q).isWatcher :=
    fun q hq => by rw [cl_write_of_ne s hq]
  refine ⟨⟨hs.all.erase p, fun q hq => ?_, ?_, ?_⟩, fun q => ?_, ?_⟩
  · show (s.write p .blank).cl q = .blank
    by_cases hqp : q = p
    · rw [hqp, cl_write_self]
    · rw [cl_write_of_ne s hqp]
      exact hs.gone q fun hin => hq ((List.mem_erase_of_ne hqp).mpr hin)
  · show Mirrors _ fun q => ((s.write p .blank).cl q).monitor
    rw [row_write Watcher.monitor]
    exact hs.mon.clear p
  · show Mirrors _ fun q => ((s.write p .blank).cl q).watch
    rw [row_write Watcher.watch]
    exact hs.watch.clear p
  · show ((s.write p .blank).cl q).isWatcher = ((s.write p .blank).cl q).watches
    by_cases hq : q = p
    · rw [hq, cl_write_self]
      rfl
    · rw [cl_write_of_ne s hq]
      exact hc.marked q
  · show (if (s.cl p).isWatcher then s.nWatchers - 1 else s.nWatchers) =
      (((s.all.erase p).filter fun q => ((s.write p .blank).cl q).isWatcher).length : Int)
    rw [filter_erase_congr hs.all hflags, hc.count, length_filter_erase hp]
    split <;> simp

theorem connected (hs : s.Mirrored) (hc : s.Counted) (hp : p ∉ s.all) :
    Mirrored { s.write p .blank with all := s.all ++ [p] } ∧
      Counted { s.write p .blank with all := s.all ++ [p] } := by
  have hsame : (s.write p .blank).cl = s.cl := by
    rw [← hs.gone p hp]
    exact Function.update_eq_self p s.cl
  refine ⟨⟨?_, fun q hq => ?_, ?_, ?_⟩, fun q => ?_, ?_⟩
  · exact List.nodup_append.mpr ⟨hs.all, by simp, fun x hx y hy => by
      rw [List.mem_singleton.mp hy]
      rintro rfl
      exact hp hx⟩
  · show (s.write p .blank).cl q = .blank
    rw [hsame]
    exact hs.gone q fun hin => hq (List.mem_append_left _ hin)
  · show Mirrors s.monIdx fun q => ((s.write p .blank).cl q).monitor
    rw [hsame]
    exact hs.mon
  · show Mirrors s.watchIdx fun q => ((s.write p .blank).cl q).watch
    rw [hsame]
    exact hs.watch
  · show ((s.write p .blank).cl q).isWatcher = ((s.write p .blank).cl q).watches
    rw [hsame]
    exact hc.marked q
  · show s.nWatchers = (((s.all ++ [p]).filter fun q => ((s.write p .blank).cl q).isWatcher).length : Int)
    rw [hsame, List.filter_append, hc.count]
    simp [hs.gone p hp, Watcher.blank]

theorem watchStep_ok (hs : s.Mirrored) (hc : s.Counted) (e : WatchEvent) :
    (watchStep s e).Mirrored ∧ (watchStep s e).Counted := by
  cases e with
  | connect p =>
    rw [watchStep]
    split
    · exact ⟨hs, hc⟩
    · next hp => exact connected hs hc fun hin => hp (List.contains_iff_mem.mpr hin)
  | monitor p params =>
    rw [watchStep]
    split
    · next hp => exact refreshed hs hc (List.contains_iff_mem.mp hp) (edited_monitorImpl p s params)
    · exact ⟨hs, hc⟩
  | watch p params =>
    rw [watchStep]
    split
    · next hp => exact refreshed hs hc (List.contains_iff_mem.mp hp) (edited_watchImpl p s params)
    · exact ⟨hs, hc⟩
  | remove p =>
    rw [watchStep]
    split
    · next hp => exact removed hs hc (List.contains_iff_mem.mp hp)
    · exact ⟨hs, hc⟩

theorem watch_run_ok (es : List WatchEvent) : ∀ s : Watchers, s.Mirrored → s.Counted →
    (es.foldl watchStep s).Mirrored ∧ (es.foldl watchStep s).Counted := by
  induction es with
  | nil => exact fun _ hs hc => ⟨hs, hc⟩
  | cons e es ih => exact fun s hs hc => (watchStep_ok hs hc e).elim (ih _)

theorem start_ok : Watchers.start.Mirrored ∧ Watchers.start.Counted :=
  ⟨⟨List.nodup_nil, fun _ _ => rfl, .empty, .empty⟩, fun _ => rfl, rfl⟩

/-- What an index is to say of the lists it is for: under each nick the clients that list it, once,
and no others; and nobody who has gone. -/
structure Leads (s : Watchers) (ix : Index Text Nat) (row : Watcher → List Text) : Prop where
  once : ∀ p k, k ∈ row (s.cl p) → (ix.under k).count p = 1
  never : ∀ p k, k ∉ row (s.cl p) → (ix.under k).count p = 0
  filled : ∀ e ∈ ix, e.ptrs ≠ []
  there : ∀ e ∈ ix, ∀ p ∈ e.ptrs, p ∈ s.all

theorem Mirrored.leads (hs : s.Mirrored) {ix : Index Text Nat} {row : Watcher → List Text}
    (h : Mirrors ix fun p => row (s.cl p)) (hblank : row .blank = []) : Leads s ix row where
  once := fun p k hk => by rw [h.count, if_pos hk]
  never := fun p k hk => by rw [h.count, if_neg hk]
  filled := h.tidy.filled
  there := fun e he p hp => by
    by_contra hgone
    have hunder : p ∈ ix.under e.key := by
      rw [h.tidy.under_key he]
      exact hp
    have hrow := (h.mem_iff p e.key).mp hunder
    rw [hs.gone p hgone, hblank] at hrow
    exact absurd hrow List.not_mem_nil

/-- **Both indexes are exact after every run**, and so is the number of watchers: under each nick
stand the clients that list it, each once. The lists are what the clients asked for; the indexes
are kept by hand beside them, in every command and when a client goes. -/
theorem watch_indexes_exact (es : List WatchEvent) :
    let s := es.foldl watchStep .start
    Leads s s.monIdx Watcher.monitor ∧ Leads s s.watchIdx Watcher.watch ∧
      s.nWatchers = ((s.all.filter fun p => (s.cl p).watches).length : Int) := by
  obtain ⟨hs, hc⟩ := watch_run_ok es _ start_ok.1 start_ok.2
  refine ⟨hs.leads hs.mon rfl, hs.leads hs.watch rfl, hc.count.trans ?_⟩
  congr 2
  exact List.filter_congr fun p _ => hc.marked p

end Watchers

end SekurIRCd
