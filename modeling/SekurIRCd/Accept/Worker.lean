/-
# The worker pool

Reverse DNS, ident, blocklist and password jobs run on worker threads: `worker_submit` queues them,
a worker takes the first, runs it and puts its result on a ring, and the event loop polls the ring.
Three mutexes are involved, one for the queue, one for the slots that passwords are checked in, and
one for the ring, and a worker holds one of them at a time.  Between them anything can happen: a
worker that has left its slot need not be the next to reach the ring, so results may come in another
order than the checks began or ended in.  A run of the pool is any interleaving of these sections.

Results can be lost (the ring is full) and jobs are dropped (their connection has gone), and
password jobs jump the queue.  What holds in every run is `pool_exact`: no job is run twice and no
result comes from nowhere, the lookups are taken in the order they were submitted in, and what is
lost is counted.
-/
import Mathlib.Data.List.Induction
import Mathlib.Data.List.Perm.Basic
import SekurIRCd.Lib.CString

namespace SekurIRCd

open CLib

/-! ## 1. Jobs

A job carries everything that the worker needs, since workers read nothing of the server, and its
result carries back what ties it to the question: the connection's number, the purpose, and the
generation of the check.
-/

/-- `job_type_t`. -/
inductive JobType
  | rdns | ident | dnsbl | sasl | hash
deriving DecidableEq, Repr

/-- Password jobs, which jump the queue. -/
def JobType.isAuth : JobType → Bool
  | .sasl | .hash => true
  | _ => false

/-- `auth_purpose_t`. -/
inductive AuthPurpose
  | oper | die | restart
deriving DecidableEq, Repr

/-- `job_t`, without the timeout. -/
structure Job where
  type : JobType
  connId : Nat
  ip : Text
  remotePort : Nat
  localPort : Nat
  zones : List Text
  secret : Text
  hash : Text
  purpose : AuthPurpose
  gen : Nat
deriving DecidableEq, Repr

/-- `job_result_t`. -/
structure JobResult where
  type : JobType
  connId : Nat
  success : Bool
  text : Text
  zoneCode : List Int
  purpose : AuthPurpose
  gen : Nat
deriving DecidableEq, Repr

/-- What a resolver, an identd or scrypt has to say. -/
structure JobAnswer where
  success : Bool
  text : Text
  zoneCode : List Int

/-- The result of a job; a password is checked against the hash it was submitted with. -/
def Job.result (verify : Text → Text → Bool) (j : Job) (ans : JobAnswer) : JobResult where
  type := j.type
  connId := j.connId
  success := if j.type = .sasl then verify j.secret j.hash else ans.success
  text := if j.type = .sasl then [] else ans.text
  zoneCode := if j.type = .rdns ∨ j.type = .dnsbl then ans.zoneCode else List.replicate 16 0
  purpose := j.purpose
  gen := j.gen

def nWorkers : Nat := 4
def resultRing : Nat := 256
def queueMax : Nat := 4096
def scryptMaxConcurrent : Nat := 2
def cancelRing : Nat := 512

/-- The pool.  A worker has one job at a time: one it has `taken`, one that is `running`, or one
that is `done` but whose result is not on the ring yet.  `results` is the ring, and `cancelled` the
connections that have gone. -/
structure Pool where
  queue : List Job
  taken : List Job
  running : List Job
  done : List (Job × JobResult)
  results : List JobResult
  cancelled : List Nat

/-! ## 2. The operations

`submit`, `cancel` and `poll` are the event loop's.  The other four are what a worker does to one
job, in this order: `take` under the queue's mutex, `begin` and `finish` where it enters and leaves
a slot for passwords, `push` under the ring's mutex.  A lookup needs no slot.
-/

namespace Pool

def start : Pool := ⟨[], [], [], [], [], []⟩

/-- How many workers are not waiting for a job. -/
def busy (p : Pool) : Nat := p.taken.length + p.running.length + p.done.length

/-- `worker_submit`; `none` when it returns -1. -/
def submit (p : Pool) (j : Job) : Option Pool :=
  if p.queue.length ≥ queueMax then none
  else some { p with queue := if j.type.isAuth then j :: p.queue else p.queue ++ [j] }

/-- `worker_cancel`. -/
def cancel (p : Pool) (connId : Nat) : Pool :=
  { p with cancelled := (connId :: p.cancelled).take cancelRing }

/-- `is_cancelled`; 0 is no connection. -/
def skips (p : Pool) (j : Job) : Bool := j.connId != 0 && p.cancelled.contains j.connId

/-- A worker that is free takes the first job (`worker_main`), or skips it. -/
def take (p : Pool) : Option (Job × Pool) :=
  match p.queue with
  | [] => none
  | j :: rest =>
    if p.busy < nWorkers then
      some (j, { p with queue := rest, taken := if p.skips j then p.taken else p.taken ++ [j] })
    else none

/-- A worker gets to work on what it has taken; a password waits in `scrypt_enter` while both slots
are in use. -/
def begin (p : Pool) (i : Nat) : Option Pool :=
  match p.taken[i]? with
  | none => none
  | some j =>
    if j.type.isAuth ∧
        (p.running.filter fun j => j.type.isAuth).length ≥ scryptMaxConcurrent then none
    else some { p with taken := p.taken.eraseIdx i, running := p.running ++ [j] }

/-- `push_result`. -/
def pushResult (p : Pool) (r : JobResult) : Pool :=
  if p.results.length + 1 < resultRing then { p with results := p.results ++ [r] } else p

/-- A worker has its answer, and a password's slot is free again (`scrypt_leave`). -/
def finish (verify : Text → Text → Bool) (p : Pool) (i : Nat) (ans : JobAnswer) :
    Option (Job × Pool) :=
  match p.running[i]? with
  | none => none
  | some j =>
    some (j, { p with
      running := p.running.eraseIdx i, done := p.done ++ [(j, j.result verify ans)] })

/-- A worker that is done puts its result on the ring, and looks for the next job. -/
def push (p : Pool) (i : Nat) : Option ((Job × JobResult) × Pool) :=
  match p.done[i]? with
  | none => none
  | some x => some (x, { p with done := p.done.eraseIdx i }.pushResult x.2)

/-- `worker_poll_results`. -/
def poll (p : Pool) (max : Nat) : List JobResult × Pool :=
  (p.results.take max, { p with results := p.results.drop max })

end Pool

/-! ## 3. Runs

The history beside the pool is only written, never read: it is what `pool_exact` speaks about.
-/

/-- One step of the event loop (`submit`, `cancel`, `poll`) or of a worker. What one lock covers is
one step, and nothing more, so other workers may come between any two. -/
inductive PoolStep
  | submit (j : Job)
  | cancel (connId : Nat)
  | take
  | begin (i : Nat)
  | finish (i : Nat) (ans : JobAnswer)
  | push (i : Nat)
  | poll (max : Nat)

/-- A pool with its history: the jobs it has accepted, those that were skipped, those that were
run, each with its result, those whose results have reached the ring or found it full, and the
results that were polled; the oldest stands first. -/
structure PoolRun where
  pool : Pool
  accepted : List Job
  dequeued : List Job
  skipped : List Job
  finished : List (Job × JobResult)
  pushed : List (Job × JobResult)
  polled : List JobResult
  lost : Nat

namespace PoolRun

def start : PoolRun := ⟨Pool.start, [], [], [], [], [], [], 0⟩

variable (verify : Text → Text → Bool)

def step (s : PoolRun) : PoolStep → PoolRun
  | .submit j =>
    match s.pool.submit j with
    | some p => { s with pool := p, accepted := s.accepted ++ [j] }
    | none => s
  | .cancel connId => { s with pool := s.pool.cancel connId }
  | .take =>
    match s.pool.take with
    | some (j, p) =>
      { s with pool := p, dequeued := s.dequeued ++ [j]
               skipped := if s.pool.skips j then s.skipped ++ [j] else s.skipped }
    | none => s
  | .begin i =>
    match s.pool.begin i with
    | some p => { s with pool := p }
    | none => s
  | .finish i ans =>
    match s.pool.finish verify i ans with
    | some (j, p) =>
      { s with pool := p, finished := s.finished ++ [(j, j.result verify ans)] }
    | none => s
  | .push i =>
    match s.pool.push i with
    | some (x, p) =>
      { s with pool := p, pushed := s.pushed ++ [x]
               lost := if s.pool.results.length + 1 < resultRing then s.lost else s.lost + 1 }
    | none => s
  | .poll max =>
    let r := s.pool.poll max
    { s with pool := r.2, polled := s.polled ++ r.1 }

def run (acts : List PoolStep) : PoolRun := acts.foldl (step verify) start

end PoolRun

/-! ## 4. What each operation does

One lemma for each says when the operation is possible and what the pool is then; nothing after this
section unfolds an operation.
-/

namespace Pool

variable {p p' : Pool} {j : Job} {i : Nat}

theorem submit_some (h : p.submit j = some p') : p.queue.length < queueMax ∧
    p' = { p with queue := if j.type.isAuth then j :: p.queue else p.queue ++ [j] } := by
  rw [submit] at h
  split at h
  · cases h
  · next hroom => exact ⟨Nat.lt_of_not_ge hroom, (Option.some.inj h).symm⟩

theorem take_some (h : p.take = some (j, p')) : ∃ rest, p.queue = j :: rest ∧
    p.busy < nWorkers ∧
    p' = { p with queue := rest, taken := if p.skips j then p.taken else p.taken ++ [j] } := by
  rw [take] at h
  split at h
  · cases h
  · next first rest hq =>
    split at h
    · next hfree =>
      obtain ⟨rfl, rfl⟩ := Prod.mk.inj (Option.some.inj h)
      exact ⟨rest, hq, hfree, rfl⟩
    · cases h

theorem begin_some (h : p.begin i = some p') : ∃ j, p.taken[i]? = some j ∧
    (j.type.isAuth → (p.running.filter fun j => j.type.isAuth).length < scryptMaxConcurrent) ∧
    p' = { p with taken := p.taken.eraseIdx i, running := p.running ++ [j] } := by
  rw [begin] at h
  split at h
  · cases h
  · next j hj =>
    split at h
    · cases h
    · next hslot =>
      refine ⟨j, hj, fun hauth => ?_, (Option.some.inj h).symm⟩
      exact Nat.lt_of_not_ge fun hfull => hslot ⟨hauth, hfull⟩

theorem finish_some {verify : Text → Text → Bool} {ans : JobAnswer}
    (h : p.finish verify i ans = some (j, p')) : p.running[i]? = some j ∧
    p' = { p with
      running := p.running.eraseIdx i, done := p.done ++ [(j, j.result verify ans)] } := by
  rw [finish] at h
  split at h
  · cases h
  · next hj =>
    obtain ⟨rfl, rfl⟩ := Prod.mk.inj (Option.some.inj h)
    exact ⟨hj, rfl⟩

theorem push_some {x : Job × JobResult} (h : p.push i = some (x, p')) : p.done[i]? = some x ∧
    p' = { p with done := p.done.eraseIdx i }.pushResult x.2 := by
  rw [push] at h
  split at h
  · cases h
  · next hx =>
    obtain ⟨rfl, rfl⟩ := Prod.mk.inj (Option.some.inj h)
    exact ⟨hx, rfl⟩

/-- The ring is all that `push_result` writes. -/
theorem pushResult_eq (p : Pool) (r : JobResult) : p.pushResult r = { p with
    results := if p.results.length + 1 < resultRing then p.results ++ [r] else p.results } := by
  rw [pushResult]
  split <;> rfl

end Pool

/-! ## 5. Every run

`Exact` is the invariant and the result at once.  Its three equations up to order follow a job on
its way: what was accepted is in the queue or was taken, what was taken was skipped or is with a
worker or has been run, and what has been run has reached the ring or is about to.
-/

namespace PoolRun

/-- Not a password job. -/
def lookups (js : List Job) : List Job := js.filter fun j => !j.type.isAuth

/-- What holds of a pool and its history. Nothing is in two places: a job that was accepted is
queued, taken, running, skipped or finished, and a result is the one of the job that gave it. -/
structure Exact (verify : Text → Text → Bool) (s : PoolRun) : Prop where
  /-- Password jobs stand first. -/
  ahead : ∃ auths rest, s.pool.queue = auths ++ rest ∧ (∀ j ∈ auths, j.type.isAuth = true) ∧
    ∀ j ∈ rest, j.type.isAuth = false
  /-- Lookups are taken in the order they were submitted in. -/
  in_order : lookups s.accepted = lookups s.dequeued ++ lookups s.pool.queue
  /-- Every job is taken once. -/
  taken_once : s.accepted.Perm (s.dequeued ++ s.pool.queue)
  /-- What was taken is skipped, or run once. -/
  run_once : s.dequeued.Perm
    (s.skipped ++ (s.pool.taken ++ (s.pool.running ++ s.finished.map Prod.fst)))
  /-- Every result is the result of the job that was run. -/
  results : ∀ x ∈ s.finished, ∃ ans, x.2 = x.1.result verify ans
  /-- Every job that was run brings its result to the ring once. -/
  pushed_once : s.finished.Perm (s.pushed ++ s.pool.done)
  /-- Results are polled once, in the order they came to the ring in. -/
  polled_once : (s.polled ++ s.pool.results).Sublist (s.pushed.map Prod.snd)
  /-- Those that are neither polled nor waiting are lost. -/
  lost : s.polled.length + s.pool.results.length + s.lost = s.pushed.length
  queue_le : s.pool.queue.length ≤ queueMax
  workers_le : s.pool.busy ≤ nWorkers
  scrypt_le : (s.pool.running.filter fun j => j.type.isAuth).length ≤ scryptMaxConcurrent
  ring_lt : s.pool.results.length < resultRing

variable {verify : Text → Text → Bool} {s : PoolRun}

theorem exact_start : Exact verify start where
  ahead := ⟨[], [], rfl, by simp, by simp⟩
  in_order := rfl
  taken_once := .refl _
  run_once := .refl _
  results := fun _ hx => absurd hx List.not_mem_nil
  pushed_once := .refl _
  polled_once := .refl _
  lost := rfl
  queue_le := by decide
  workers_le := by decide
  scrypt_le := by decide
  ring_lt := by decide

theorem lookups_of_auth {js : List Job} (h : ∀ j ∈ js, j.type.isAuth = true) : lookups js = [] := by
  rw [lookups, List.filter_eq_nil_iff]
  intro j hj
  rw [h j hj]
  decide

theorem lookups_append (xs ys : List Job) : lookups (xs ++ ys) = lookups xs ++ lookups ys :=
  List.filter_append ..

theorem lookups_single_auth {j : Job} (h : j.type.isAuth = true) : lookups [j] = [] :=
  lookups_of_auth (by simpa using h)

theorem lookups_single {j : Job} (h : j.type.isAuth = false) : lookups [j] = [j] := by
  simp [lookups, h]

/-- A job taken out of a list, in front of the rest. -/
theorem perm_eraseIdx {α : Type} {js : List α} {i : Nat} {j : α} (h : js[i]? = some j) :
    js.Perm (j :: js.eraseIdx i) := by
  obtain ⟨hi, rfl⟩ := List.getElem?_eq_some_iff.mp h
  exact (List.getElem_cons_eraseIdx_perm hi).symm

theorem Exact.submit (h : Exact verify s) (j : Job) : Exact verify (s.step verify (.submit j)) := by
  rw [step]
  split
  · next p hp =>
    obtain ⟨hroom, rfl⟩ := Pool.submit_some hp
    obtain ⟨auths, rest, hq, hauths, hrest⟩ := h.ahead
    cases hj : j.type.isAuth with
    | true =>
      refine { h with ahead := ?_, in_order := ?_, taken_once := ?_, queue_le := ?_ }
      · refine ⟨j :: auths, rest, ?_, ?_, hrest⟩
        · simp only [if_true, hq, List.cons_append]
        · intro j' hj'
          rcases List.mem_cons.mp hj' with rfl | hj'
          · exact hj
          · exact hauths j' hj'
      · have hfront : lookups (j :: s.pool.queue) = lookups s.pool.queue := by
          rw [← List.singleton_append, lookups_append, lookups_single_auth hj, List.nil_append]
        simp only [if_true, lookups_append, lookups_single_auth hj, List.append_nil, hfront]
        exact h.in_order
      · simp only [if_true]
        have hmid := (h.taken_once.append_right [j]).trans List.perm_append_comm
        have hfront : (j :: (s.dequeued ++ s.pool.queue)).Perm (s.dequeued ++ j :: s.pool.queue) :=
          List.perm_middle.symm
        exact hmid.trans hfront
      · simp only [if_true, List.length_cons]
        exact hroom
    | false =>
      refine { h with ahead := ?_, in_order := ?_, taken_once := ?_, queue_le := ?_ }
      · refine ⟨auths, rest ++ [j], ?_, hauths, ?_⟩
        · simp only [Bool.false_eq_true, if_false, hq, List.append_assoc]
        · intro j' hj'
          rcases List.mem_append.mp hj' with hj' | hj'
          · exact hrest j' hj'
          · rw [List.mem_singleton.mp hj']
            exact hj
      · simp only [Bool.false_eq_true, if_false, lookups_append, lookups_single hj, h.in_order,
          List.append_assoc]
      · simp only [Bool.false_eq_true, if_false]
        rw [← List.append_assoc]
        exact h.taken_once.append_right [j]
      · simp only [Bool.false_eq_true, if_false, List.length_append, List.length_cons,
          List.length_nil]
        exact hroom
  · exact h

theorem Exact.take (h : Exact verify s) : Exact verify (s.step verify .take) := by
  rw [step]
  split
  · next j p hp =>
    obtain ⟨rest, hq, hfree, rfl⟩ := Pool.take_some hp
    obtain ⟨auths, ls, hsplit, hauths, hls⟩ := h.ahead
    have horder := h.in_order
    have honce := h.taken_once
    have hroom := h.queue_le
    rw [hq] at horder honce hroom
    refine { h with
      ahead := ?_, in_order := ?_, taken_once := ?_, run_once := ?_,
      queue_le := ?_, workers_le := ?_ }
    · rw [hq] at hsplit
      cases auths with
      | nil => exact ⟨[], rest, rfl, by simp, fun j' hj' => hls j' (by
          rw [← List.nil_append ls, ← hsplit]
          exact List.mem_cons_of_mem _ hj')⟩
      | cons a auths =>
        rw [List.cons_append] at hsplit
        exact ⟨auths, ls, (List.cons.inj hsplit).2,
          fun j' hj' => hauths j' (List.mem_cons_of_mem _ hj'),
          hls⟩
    · rw [horder, ← List.singleton_append, lookups_append, lookups_append, List.append_assoc]
    · rw [List.append_assoc]
      exact honce
    · by_cases hskip : s.pool.skips j
      · simp only [if_pos hskip]
        refine (h.run_once.append_right [j]).trans ?_
        rw [List.append_assoc]
        exact (List.perm_append_comm.append_left _).trans (by rw [List.append_assoc])
      · simp only [if_neg hskip]
        refine (h.run_once.append_right [j]).trans ?_
        rw [List.append_assoc, List.append_assoc]
        refine List.Perm.append_left _ (List.Perm.trans ?_ (by rw [List.append_assoc]))
        exact (List.perm_append_comm.append_left _)
    · rw [List.length_cons] at hroom
      exact Nat.le_of_succ_le hroom
    · by_cases hskip : s.pool.skips j
      · simp only [if_pos hskip]
        exact h.workers_le
      · simp only [if_neg hskip]
        rw [Pool.busy] at hfree ⊢
        simp only [List.length_append, List.length_singleton]
        omega
  · exact h

theorem Exact.begin (h : Exact verify s) (i : Nat) : Exact verify (s.step verify (.begin i)) := by
  rw [step]
  split
  · next p hp =>
    obtain ⟨j, hj, hslot, rfl⟩ := Pool.begin_some hp
    have hperm := perm_eraseIdx hj
    have hlen := hperm.length_eq
    have hworkers := h.workers_le
    rw [List.length_cons] at hlen
    rw [Pool.busy] at hworkers
    refine { h with run_once := ?_, workers_le := ?_, scrypt_le := ?_ }
    · refine h.run_once.trans (List.Perm.append_left _ ?_)
      refine (hperm.append_right _).trans ?_
      rw [List.cons_append, List.append_assoc, List.singleton_append]
      exact (List.perm_middle.symm).trans (List.Perm.append_left _ List.perm_middle.symm)
    · simp only [Pool.busy, List.length_append, List.length_singleton]
      omega
    · have hscrypt := h.scrypt_le
      rw [List.filter_append, List.length_append]
      cases hauth : j.type.isAuth with
      | true =>
        have hone := hslot hauth
        simp only [List.filter_cons, hauth, if_true, List.filter_nil, List.length_singleton]
        omega
      | false =>
        simp only [List.filter_cons, hauth, Bool.false_eq_true, if_false, List.filter_nil,
          List.length_nil]
        omega
  · exact h

theorem Exact.finish (h : Exact verify s) (i : Nat) (ans : JobAnswer) :
    Exact verify (s.step verify (.finish i ans)) := by
  rw [step]
  split
  · next j p hp =>
    obtain ⟨hj, rfl⟩ := Pool.finish_some hp
    have hperm := perm_eraseIdx hj
    have hlen := hperm.length_eq
    rw [List.length_cons] at hlen
    have hworkers := h.workers_le
    refine { h with
      run_once := ?_, results := ?_, pushed_once := ?_, workers_le := ?_, scrypt_le := ?_ }
    · refine h.run_once.trans (List.Perm.append_left _ (List.Perm.append_left _ ?_))
      refine (hperm.append_right _).trans ?_
      rw [List.cons_append, List.map_append, ← List.append_assoc]
      exact (List.perm_append_singleton j _).symm
    · intro x hx
      rcases List.mem_append.mp hx with hx | hx
      · exact h.results x hx
      · rw [List.mem_singleton.mp hx]
        exact ⟨ans, rfl⟩
    · rw [← List.append_assoc]
      exact h.pushed_once.append_right _
    · simp only [Pool.busy, List.length_append, List.length_singleton] at hworkers ⊢
      omega
    · exact ((List.eraseIdx_sublist _ _).filter _).length_le.trans h.scrypt_le
  · exact h

theorem Exact.push (h : Exact verify s) (i : Nat) : Exact verify (s.step verify (.push i)) := by
  rw [step]
  split
  · next x p hp =>
    obtain ⟨hx, rfl⟩ := Pool.push_some hp
    have hperm := perm_eraseIdx hx
    have hlen := hperm.length_eq
    rw [List.length_cons] at hlen
    have hworkers := h.workers_le
    have hlost := h.lost
    have hpushed : s.finished.Perm (s.pushed ++ [x] ++ s.pool.done.eraseIdx i) := by
      refine h.pushed_once.trans ?_
      rw [List.append_assoc]
      exact List.Perm.append_left _ hperm
    have hbusy : s.pool.taken.length + s.pool.running.length +
        (s.pool.done.eraseIdx i).length ≤ nWorkers := by
      rw [Pool.busy] at hworkers
      omega
    rw [Pool.pushResult_eq]
    by_cases hfull : s.pool.results.length + 1 < resultRing
    · simp only [if_pos hfull]
      refine { h with
        pushed_once := hpushed, polled_once := ?_, lost := ?_, workers_le := hbusy
        ring_lt := ?_ }
      · rw [← List.append_assoc, List.map_append]
        exact h.polled_once.append_right _
      · simp only [List.length_append, List.length_singleton]
        omega
      · rw [List.length_append, List.length_singleton]
        exact hfull
    · simp only [if_neg hfull]
      refine { h with
        pushed_once := hpushed, polled_once := ?_, lost := ?_, workers_le := hbusy }
      · rw [List.map_append]
        exact h.polled_once.trans (List.sublist_append_left _ _)
      · simp only [List.length_append, List.length_singleton]
        omega
  · exact h

theorem Exact.poll (h : Exact verify s) (max : Nat) : Exact verify (s.step verify (.poll max)) := by
  have hlost := h.lost
  refine { h with polled_once := ?_, lost := ?_, ring_lt := ?_ }
  · simp only [step, Pool.poll, List.append_assoc, List.take_append_drop]
    exact h.polled_once
  · simp only [step, Pool.poll, List.length_append, List.length_take, List.length_drop]
    omega
  · simp only [step, Pool.poll, List.length_drop]
    exact Nat.lt_of_le_of_lt (Nat.sub_le _ _) h.ring_lt

/-- **The step lemma.** -/
theorem Exact.step (h : Exact verify s) (act : PoolStep) : Exact verify (s.step verify act) := by
  cases act with
  | submit j => exact h.submit j
  | cancel connId => exact { h with }
  | take => exact h.take
  | begin i => exact h.begin i
  | finish i ans => exact h.finish i ans
  | push i => exact h.push i
  | poll max => exact h.poll max

variable (verify) in
/-- **Every run of the pool is exact**, whatever the event loop and the workers do and in which
order.  The induction is on the steps, from the last one backwards, and each of them is one lemma
above. -/
theorem pool_exact (acts : List PoolStep) : Exact verify (run verify acts) := by
  induction acts using List.reverseRecOn with
  | nil => exact exact_start
  | append_singleton acts act ih =>
    rw [run, List.foldl_concat]
    exact ih.step act

end PoolRun

end SekurIRCd
