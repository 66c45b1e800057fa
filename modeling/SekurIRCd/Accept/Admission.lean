/-
# Admission

Every connection passes `accept_common`: the server's own limit, the K-lines, the scanner's
exemption, the connect-flood check, its class and the cap for its address.  The state here is what
these checks read, and the steps are all that change it: connections accepted, re-addressed by a
trusted gateway and removed, services and remote users coming and going, a rehash, and the life of
the scanner's probes.

Two properties of a run, each with what it takes:

* `class_count` is exact, unless a connection is refused for its address's cap after it was counted
  in a class (`occupancy_exact_iff`);
* one connection is exempt as the scanner's own each time the exemption is armed, unless another
  comes while probes are in flight (`exemption_single_iff`).

The verdicts of the K-line list and of the connect-flood table, and the sockets that probes open,
come with the step.  `irc_ip_mask_match` and `irc_ip_limit_key` are parameters.
-/
import SekurIRCd.Accept.Classes
import SekurIRCd.Accept.Scanner
import SekurIRCd.Lib.Runs

namespace SekurIRCd

open CLib Runs

/-! ## 1. The state

The address that a connection has now is in the connection, and the addresses that the scanner
knows are numbers, as `inet_pton` makes them. -/

/-- The parts of `config_t` that admission reads. The classes come in the order of the file, and
the first whose mask matches is the one. -/
structure AcceptConfig where
  classes : List ConnClass
  classes_le : classes.length ≤ cfgMaxClasses
  maxConnections : Nat
  maxConnectionsPerIp : Nat
  ipv6LimitPrefix : Nat
  blEnabled : Bool
  blacklists : Nat
  scan : ScanConfig

/-- `server_t`, as far as admission goes.  `allClients` are the connections with a socket, newest
first; `pseudos` are the services and remote users. -/
structure Listening where
  cfg : AcceptConfig
  classCount : Nat → Nat
  allClients : List Connection
  pseudos : List Connection
  ipCounts : Text → Nat
  prot : Protection

/-- A server that has just started. -/
def Listening.start (cfg : AcceptConfig) (now : Nat) : Listening :=
  { cfg
    classCount := fun _ => 0
    allClients := []
    pseudos := []
    ipCounts := fun _ => 0
    prot := ⟨[], fun _ => ⟨0, 0⟩, fun _ => ⟨0, 0⟩, now, []⟩ }

/-- One part of a dotted quad, as `inet_pton` reads it. -/
def inetOctet (t : Text) : Option Ip4 :=
  let v := t.foldl (fun n c => 10 * n + (c.toNat - '0'.toNat)) 0
  if t ≠ [] ∧ t.length ≤ 3 ∧ t.all Char.isDigit ∧ (t.length = 1 ∨ t.head? ≠ some '0') ∧ v ≤ 255 then
    some (UInt32.ofNat v)
  else none

/-- `inet_pton` for IPv4: the first part is the lowest byte. -/
def inetPton (s : Text) : Option Ip4 :=
  match (splitSep '.' s).mapM inetOctet with
  | some [a, b, c, d] => some (a + b * 256 + c * 65536 + d * 16777216)
  | _ => none

/-- A connection that `accept` returned: its socket and address, what the K-line list and the
connect-flood table say about it, and the sockets that probes of it would open. -/
structure AcceptTry where
  fd : Nat
  ip : Text
  klined : Bool
  flood : Bool
  fds : List (Option Nat)
deriving Repr

/-- The client made for it. -/
def AcceptTry.client (a : AcceptTry) : Connection := { clientNew (some a.fd) with ip := a.ip }

inductive AcceptOutcome
  | full | klined | flood | classFull | perIp
  | admitted (lookup : Bool)
deriving DecidableEq, Repr

inductive AcceptEvent
  | accept (a : AcceptTry)
  | realAddress (k : Nat) (ip : Option Text) (klined : Bool)
  | rehash (cfg : AcceptConfig)
  | introduce
  | removeClient (k : Nat)
  | removePseudo (k : Nat)
  | probe (fd : Nat) (e : Protection.ProbeEvent)
  | tick
  | protect (ip : Text) (fds : List (Option Nat))
  | wait (secs : Nat)

/-! ## 2. The steps

The checks are made in the order of the source. It matters: a connection that is refused late has
by then been counted, or has used the exemption. -/

namespace Listening

section Steps

variable (ipMaskMatch : Text → Text → Bool) (ipLimitKey : Text → Nat → Text)

/-- `server_ip_key`. -/
def serverIpKey (s : Listening) (ip : Text) : Text := ipLimitKey ip s.cfg.ipv6LimitPrefix

/-- The server's own limit is reached. -/
def isFull (s : Listening) : Bool :=
  decide (0 < s.cfg.maxConnections ∧ s.cfg.maxConnections ≤ s.allClients.length)

/-- `protection_exempt`. -/
def protectionExempt (s : Listening) (ip : Text) : Bool :=
  s.cfg.scan.exempt.any (ipMaskMatch · ip)

/-- The cap for one address: its class's, if that sets one. -/
def perIpCap (s : Listening) (c : Connection) : Nat :=
  match c.classIdx.bind (s.cfg.classes[·]?) with
  | some cc => if 0 < cc.maxPerIp then cc.maxPerIp else s.cfg.maxConnectionsPerIp
  | none => s.cfg.maxConnectionsPerIp

/-- `server_add_connection`. -/
def serverAddConnection (s : Listening) (c : Connection) : Listening :=
  let key := s.serverIpKey ipLimitKey c.ip
  { s with allClients := { c with countKey := key } :: s.allClients
           ipCounts := Function.update s.ipCounts key (s.ipCounts key + 1) }

/-- `accept_common`, after `accept`. A connection that is refused leaves the lists as they were,
but not always the class counts. -/
def acceptCommon (s : Listening) (a : AcceptTry) : AcceptOutcome × Listening :=
  if s.isFull then (.full, s)
  else if a.klined then (.klined, s)
  else
    let r := s.prot.protectionIpRelated (inetPton a.ip)
    let s := { s with prot := r.2 }
    if !r.1 && a.flood then (.flood, s)
    else
      let g := netAssignClass ipMaskMatch s.cfg.classes s.classCount a.client
      let s := { s with classCount := g.2.1 }
      if g.1 = false then (.classFull, s)
      else if r.1 = false ∧ 0 < s.perIpCap g.2.2 ∧
          s.perIpCap g.2.2 ≤ s.ipCounts (s.serverIpKey ipLimitKey a.ip) then
        -- the connection is freed here, and stays counted in its class
        (.perIp, s)
      else
        let isExempt := s.protectionExempt ipMaskMatch a.ip
        let lookup := s.cfg.blEnabled && decide (0 < s.cfg.blacklists) && !isExempt && !r.1
        let s := s.serverAddConnection ipLimitKey g.2.2
        if !r.1 && !isExempt then
          (.admitted lookup,
            { s with prot :=
                s.prot.protectionScanStart s.cfg.scan (inetPton a.ip) isExempt a.fds })
        else (.admitted lookup, s)

/-- `client_apply_real_address` for the `k`-th connection; `ip` is what `irc_ip_normalize` makes of
the given address. -/
def clientApplyRealAddress (s : Listening) (k : Nat) (ip : Option Text) (klined : Bool) :
    Listening :=
  match s.allClients[k]?, ip with
  | none, _ => s
  | some c, none => { s with allClients := s.allClients.set k { c with quitting := true } }
  | some c, some ip =>
    let g := netAssignClass ipMaskMatch s.cfg.classes s.classCount { c with ip := ip }
    { s with classCount := g.2.1
             allClients := s.allClients.set k
               { g.2.2 with quitting := c.quitting || !g.1 || klined } }

/-- `server_rehash`: the new configuration, and every connection in its class under it. -/
def serverRehash (s : Listening) (cfg : AcceptConfig) : Listening :=
  let r := netReclassAll ipMaskMatch cfg.classes s.allClients
  { s with cfg := cfg, classCount := r.1, allClients := r.2 }

/-- `server_remove_client` for a connection with a socket. -/
def serverRemoveClient (s : Listening) (k : Nat) : Listening :=
  match s.allClients[k]? with
  | none => s
  | some c =>
    { s with classCount := (netReleaseClass s.classCount c).1
             allClients := s.allClients.eraseIdx k
             ipCounts := Function.update s.ipCounts c.countKey (s.ipCounts c.countKey - 1) }

/-- `server_remove_client` for a service or a remote user, which is in no list of connections. -/
def serverRemovePseudo (s : Listening) (k : Nat) : Listening :=
  match s.pseudos[k]? with
  | none => s
  | some c =>
    { s with classCount := (netReleaseClass s.classCount c).1, pseudos := s.pseudos.eraseIdx k }

/-- One step of the server. -/
def step (s : Listening) : AcceptEvent → Listening
  | .accept a => (s.acceptCommon ipMaskMatch ipLimitKey a).2
  | .realAddress k ip klined => s.clientApplyRealAddress ipMaskMatch k ip klined
  | .rehash cfg => s.serverRehash ipMaskMatch cfg
  | .introduce => { s with pseudos := clientNew none :: s.pseudos }
  | .removeClient k => s.serverRemoveClient k
  | .removePseudo k => s.serverRemovePseudo k
  | .probe fd e =>
    match s.prot.scans.find? (·.fd == fd) with
    | none => s
    | some p => { s with prot := s.prot.protectionHandle s.cfg.scan p e }
  | .tick => { s with prot := s.prot.protectionTick s.cfg.scan }
  | .protect ip fds =>
    { s with prot := s.prot.protectScan s.cfg.scan (inetPton ip)
               (s.protectionExempt ipMaskMatch ip) fds }
  | .wait secs => { s with prot := { s.prot with now := s.prot.now + secs } }

end Steps

/-! ## 3. What an acceptance does

What is said of an acceptance from here on: what it does to the scanner, and what to the counts. -/

section Accept

variable {ipMaskMatch : Text → Text → Bool} {ipLimitKey : Text → Nat → Text} {s : Listening}
  {a : AcceptTry}

/-- The connection gets as far as the question whether it is the scanner's own: there is room for
it, and no line keeps its address out. -/
def Reaches (s : Listening) (a : AcceptTry) : Prop := s.isFull = false ∧ a.klined = false

/-- A scan-related connection is not held against the flood table or its address's cap, and no
lookup or scan is started for it. -/
theorem acceptCommon_of_related (h : s.Reaches a)
    (hr : (s.prot.protectionIpRelated (inetPton a.ip)).1 = true) :
    ((s.acceptCommon ipMaskMatch ipLimitKey a).1 = .classFull ∨
        (s.acceptCommon ipMaskMatch ipLimitKey a).1 = .admitted false) ∧
      (s.acceptCommon ipMaskMatch ipLimitKey a).2.prot =
        (s.prot.protectionIpRelated (inetPton a.ip)).2 := by
  simp only [acceptCommon, h.1, h.2, hr, Bool.false_eq_true, if_false, Bool.not_true,
    Bool.false_and, Bool.and_false, reduceCtorEq, false_and]
  split
  · exact ⟨.inl rfl, rfl⟩
  · exact ⟨.inr rfl, rfl⟩

/-- What acceptance does to the scanner: the question, and perhaps a scan. -/
theorem acceptCommon_prot (h : s.Reaches a) :
    (s.prot.protectionIpRelated (inetPton a.ip)).2.Eases
      (s.acceptCommon ipMaskMatch ipLimitKey a).2.prot := by
  simp only [acceptCommon, h.1, h.2, Bool.false_eq_true, if_false]
  split_ifs
  · exact .refl _
  · exact .refl _
  · exact .refl _
  · exact .protectionScanStart ..
  · exact .refl _

theorem acceptCommon_prot_refused (h : ¬ s.Reaches a) :
    (s.acceptCommon ipMaskMatch ipLimitKey a).2.prot = s.prot := by
  unfold acceptCommon
  split_ifs with hfull hkl
  · rfl
  · rfl
  · simp only [Bool.not_eq_true] at hfull hkl
    exact absurd ⟨hfull, hkl⟩ h

end Accept

/-! ## 4. The class counts

`acceptCommon` assigns the class before it looks at the address's cap, and returns without giving
it back. -/

section Classes

variable (ipMaskMatch : Text → Text → Bool) (ipLimitKey : Text → Nat → Text)

/-- Every class count is the number of connections in the class. A count is kept by hand, one up
where a connection is put into a class and one down where it is removed. -/
def CountsExact (s : Listening) : Prop := ∀ i, s.classCount i = occupied i s.allClients

/-- A class takes a new connection exactly when there is room among its connections. This is what
the counts are for. -/
def AdmitsByRoom (s : Listening) : Prop :=
  ∀ (a : AcceptTry) cc i, classFor ipMaskMatch s.cfg.classes a.ip = some (cc, i) →
    ((netAssignClass ipMaskMatch s.cfg.classes s.classCount a.client).1 = true ↔
      cc.maxClients = 0 ∨ occupied i s.allClients < cc.maxClients)

/-- The step refuses no connection for its address's cap that was counted in a class. It is a
condition on the step alone, asked in the state that it meets. -/
def CountKept (s : Listening) (e : AcceptEvent) : Prop :=
  ∀ a, e = .accept a → (s.acceptCommon ipMaskMatch ipLimitKey a).1 = .perIp →
    classFor ipMaskMatch s.cfg.classes a.ip = none

/-- Every class index is one that `class_count` has, and only connections with a socket have
one. -/
structure Classed (s : Listening) : Prop where
  lt : ∀ c ∈ s.allClients, ∀ i, c.classIdx = some i → i < cfgMaxClasses
  pseudo : ∀ c ∈ s.pseudos, c.classIdx = none

variable {ipMaskMatch ipLimitKey} {s : Listening}

theorem CountsExact.admitsByRoom (h : s.CountsExact) : s.AdmitsByRoom ipMaskMatch := by
  intro a cc i hcls
  refine netAssignClass_admits hcls |>.trans ?_
  rw [← h i]
  rfl

/-- What a connection just made adds to the counts, if its class takes it. -/
theorem netAssignClass_new (ipMaskMatch : Text → Text → Bool) (classes : List ConnClass)
    (count : Nat → Nat) (a : AcceptTry) (i : Nat) :
    (netAssignClass ipMaskMatch classes count a.client).2.1 i =
      count i + (netAssignClass ipMaskMatch classes count a.client).2.2.weight i := by
  have hnone : a.client.classIdx = none := rfl
  have hzero : ∀ j, a.client.weight j = 0 := weight_eq_zero.mpr hnone
  have hw : (netAssignClass ipMaskMatch classes count a.client).2.1 i + a.client.weight i = _ :=
    netAssignClass_weight (by simp [hnone]) (by simp [hzero]) i
  rwa [hzero i, Nat.add_zero] at hw

theorem acceptCommon_countsExact (he : s.CountsExact) (a : AcceptTry) :
    (s.acceptCommon ipMaskMatch ipLimitKey a).2.CountsExact ↔
      ((s.acceptCommon ipMaskMatch ipLimitKey a).1 = .perIp →
        classFor ipMaskMatch s.cfg.classes a.ip = none) := by
  have hnew := netAssignClass_new ipMaskMatch s.cfg.classes s.classCount a
  simp only [acceptCommon]
  split_ifs with hfull hkl hflood hcls hcap hscan
  · exact iff_of_true he (by simp)
  · exact iff_of_true he (by simp)
  · exact iff_of_true he (by simp)
  · -- the class is full: nothing was counted
    have hzero := weight_eq_zero.mpr (netAssignClass_refused hcls)
    refine iff_of_true (fun i => ?_) (by simp)
    exact (hnew i).trans (by rw [hzero i, Nat.add_zero, he i])
  · -- the cap is reached: what was counted stays so
    rw [Bool.not_eq_false] at hcls
    have hnone : (∀ i, (netAssignClass ipMaskMatch s.cfg.classes s.classCount
        a.client).2.2.weight i = 0) ↔ classFor ipMaskMatch s.cfg.classes a.ip = none :=
      weight_eq_zero.trans (netAssignClass_classIdx_eq_none hcls)
    rw [← hnone]
    refine ⟨fun h _ i => ?_, fun h i => ?_⟩
    · have hi := (hnew i).symm.trans ((h i).trans (he i).symm)
      exact Nat.add_eq_left.mp hi
    · exact (hnew i).trans (by rw [h rfl i, Nat.add_zero, he i])
  all_goals
    refine iff_of_true (fun i => ?_) (by simp)
    refine (hnew i).trans ?_
    simp only [serverAddConnection, occupied_cons, he i]
    exact Nat.add_comm _ _

/-- One connection changes, and the counts by its weight. -/
theorem countsExact_set (he : s.CountsExact) {k : Nat} {c d : Connection}
    (hc : s.allClients[k]? = some c) {count : Nat → Nat}
    (hw : ∀ i, count i + c.weight i = s.classCount i + d.weight i) :
    CountsExact { s with classCount := count, allClients := s.allClients.set k d } := by
  intro i
  have hset := occupied_set (i := i) d hc
  have hi := he i
  have hwi := hw i
  simp only
  omega

/-- What a step needs to keep the counts is what keeps them. -/
theorem countsExact_step (hk : s.Classed) (he : s.CountsExact) (e : AcceptEvent) :
    (s.step ipMaskMatch ipLimitKey e).CountsExact ↔ s.CountKept ipMaskMatch ipLimitKey e := by
  have hle : ∀ c ∈ s.allClients, ∀ i, c.weight i ≤ s.classCount i :=
    fun c hc i => (he i).symm ▸ weight_le_occupied hc
  have hother : (∀ a, e ≠ .accept a) → s.CountKept ipMaskMatch ipLimitKey e :=
    fun hne a ha => absurd ha (hne a)
  cases e with
  | accept a =>
    refine (acceptCommon_countsExact he a).trans ⟨fun h b hb => ?_, fun h => h a rfl⟩
    cases hb
    exact h
  | realAddress k ip klined =>
    refine iff_of_true (fun i => ?_) (hother (by simp))
    simp only [step, clientApplyRealAddress]
    split
    · exact he i
    · rename_i c hc
      refine countsExact_set he hc (fun j => ?_) i
      rfl
    · rename_i c ip hc
      have hm := List.mem_of_getElem? hc
      refine countsExact_set he hc (fun j => ?_) i
      exact netAssignClass_weight (c := { c with ip := ip }) (hk.lt c hm) (hle c hm) j
  | rehash cfg =>
    exact iff_of_true (netReclassAll_occupied s.allClients) (hother (by simp))
  | introduce => exact iff_of_true he (hother (by simp))
  | removeClient k =>
    refine iff_of_true (fun i => ?_) (hother (by simp))
    simp only [step, serverRemoveClient]
    split
    · exact he i
    · rename_i c hc
      have hm := List.mem_of_getElem? hc
      have hrel := netReleaseClass_weight (hk.lt c hm) (hle c hm) i
      have herase := occupied_eraseIdx (i := i) hc
      have hi := he i
      simp only
      omega
  | removePseudo k =>
    refine iff_of_true (fun i => ?_) (hother (by simp))
    simp only [step, serverRemovePseudo]
    split
    · exact he i
    · rename_i c hc
      have hnone := hk.pseudo c (List.mem_of_getElem? hc)
      simpa [netReleaseClass, hnone] using he i
  | probe fd e =>
    refine iff_of_true ?_ (hother (by simp))
    simp only [step]
    split <;> exact he
  | tick => exact iff_of_true he (hother (by simp))
  | protect ip fds => exact iff_of_true he (hother (by simp))
  | wait secs => exact iff_of_true he (hother (by simp))

theorem classed_start (cfg : AcceptConfig) (now : Nat) : (Listening.start cfg now).Classed :=
  ⟨fun _ h => absurd h List.not_mem_nil, fun _ h => absurd h List.not_mem_nil⟩

/-- A class just given is one that `class_count` has. -/
theorem netAssignClass_lt (s : Listening) {c : Connection} {i : Nat}
    (h : (netAssignClass ipMaskMatch s.cfg.classes s.classCount c).2.2.classIdx = some i) :
    i < cfgMaxClasses :=
  (netAssignClass_classIdx h).trans_le s.cfg.classes_le

theorem Classed.step (hk : s.Classed) (e : AcceptEvent) :
    (s.step ipMaskMatch ipLimitKey e).Classed := by
  cases e with
  | accept a =>
    have hnew : ∀ key i, { (netAssignClass ipMaskMatch s.cfg.classes s.classCount
        a.client).2.2 with countKey := key }.classIdx = some i → i < cfgMaxClasses :=
      fun _ i h => netAssignClass_lt s h
    simp only [Listening.step, acceptCommon]
    split_ifs
    all_goals first
      | exact hk
      | exact ⟨hk.lt, hk.pseudo⟩
      | refine ⟨fun c hc i hi => ?_, hk.pseudo⟩
        rcases List.mem_cons.mp hc with rfl | hc
        · exact hnew _ i hi
        · exact hk.lt c hc i hi
  | realAddress k ip klined =>
    simp only [Listening.step, clientApplyRealAddress]
    split
    · exact hk
    · rename_i c hc
      refine ⟨fun d hd i hi => ?_, hk.pseudo⟩
      rcases List.mem_or_eq_of_mem_set hd with hd | rfl
      · exact hk.lt d hd i hi
      · exact hk.lt c (List.mem_of_getElem? hc) i hi
    · rename_i c ip hc
      refine ⟨fun d hd i hi => ?_, hk.pseudo⟩
      rcases List.mem_or_eq_of_mem_set hd with hd | rfl
      · exact hk.lt d hd i hi
      · exact netAssignClass_lt s hi
  | rehash cfg =>
    exact ⟨fun c hc i hi => (netReclassAll_classIdx hc hi).trans_le cfg.classes_le, hk.pseudo⟩
  | introduce =>
    refine ⟨hk.lt, fun c hc => ?_⟩
    rcases List.mem_cons.mp hc with rfl | hc
    · rfl
    · exact hk.pseudo c hc
  | removeClient k =>
    simp only [Listening.step, serverRemoveClient]
    split
    · exact hk
    · exact ⟨fun c hc => hk.lt c (List.mem_of_mem_eraseIdx hc), hk.pseudo⟩
  | removePseudo k =>
    simp only [Listening.step, serverRemovePseudo]
    split
    · exact hk
    · exact ⟨hk.lt, fun c hc => hk.pseudo c (List.mem_of_mem_eraseIdx hc)⟩
  | probe fd e =>
    simp only [Listening.step]
    split
    · exact hk
    · exact ⟨hk.lt, hk.pseudo⟩
  | tick => exact ⟨hk.lt, hk.pseudo⟩
  | protect ip fds => exact ⟨hk.lt, hk.pseudo⟩
  | wait secs => exact ⟨hk.lt, hk.pseudo⟩

end Classes

/-! ## 5. The exemption

The marks are a history of the exemption. Only an acceptance adds a use to it, and the other steps
arm it or leave it. -/

section Exemption

variable {ipMaskMatch : Text → Text → Bool} {ipLimitKey : Text → Nat → Text} {s : Listening}
  {ip : Ip4}

/-- No connection comes from the address while probes of it are in flight, once one has used the
exemption. For in this time every connection is exempt, and arms the exemption again. -/
def ExemptionKept (ip : Ip4) (s : Listening) (e : AcceptEvent) : Prop :=
  ∀ a, e = .accept a → s.Reaches a → inetPton a.ip = some ip → s.prot.ipHasScans ip = true →
    usedSince ip s.prot.marks = 0

theorem step_eases (s : Listening) {e : AcceptEvent} (hne : ∀ a, e ≠ .accept a) :
    s.prot.Eases (s.step ipMaskMatch ipLimitKey e).prot := by
  cases e with
  | accept a => exact absurd rfl (hne a)
  | realAddress k ip klined =>
    simp only [step, clientApplyRealAddress]
    split <;> exact .refl _
  | rehash cfg => exact .refl _
  | introduce => exact .refl _
  | removeClient k =>
    simp only [step, serverRemoveClient]
    split <;> exact .refl _
  | removePseudo k =>
    simp only [step, serverRemovePseudo]
    split <;> exact .refl _
  | probe fd e =>
    simp only [step]
    split
    · exact .refl _
    · exact .protectionHandle ..
  | tick => exact .protectionTick ..
  | protect ip fds => exact .protectScan ..
  | wait secs => exact .of_eq rfl (Nat.le_add_right _ _) rfl

theorem spent_step (hs : s.prot.Spent) (e : AcceptEvent) :
    (s.step ipMaskMatch ipLimitKey e).prot.Spent := by
  by_cases hacc : ∃ a, e = .accept a
  · obtain ⟨a, rfl⟩ := hacc
    by_cases hr : s.Reaches a
    · exact (acceptCommon_prot hr).spent (Protection.protectionIpRelated_spent hs _)
    · rw [step, acceptCommon_prot_refused hr]
      exact hs
  · exact (step_eases s fun a h => hacc ⟨a, h⟩).spent hs

/-- A step keeps the exemption single when it meets the condition, and only then. -/
theorem usedSince_step (hs : s.prot.Spent) (hu : usedSince ip s.prot.marks ≤ 1)
    (e : AcceptEvent) :
    usedSince ip (s.step ipMaskMatch ipLimitKey e).prot.marks ≤ 1 ↔ s.ExemptionKept ip e := by
  by_cases hacc : ∃ a, e = .accept a
  · obtain ⟨a, rfl⟩ := hacc
    by_cases hr : s.Reaches a
    · have hcount := Protection.usedSince_protectionIpRelated s.prot (inetPton a.ip) ip
      constructor
      · intro h b hb _ haddr hscan
        cases hb
        have hrel : (s.prot.protectionIpRelated (inetPton a.ip)).1 = true := by
          rw [haddr, Protection.protectionIpRelated_eq, hscan, Bool.true_or]
        rw [if_pos ⟨haddr, hrel⟩] at hcount
        rw [step, (acceptCommon_of_related hr hrel).2] at h
        omega
      · intro hok
        refine ((acceptCommon_prot hr).used_le ip).trans ?_
        rw [hcount]
        split
        · rename_i hrel
          -- related while probes are in flight, or through a slot that is not used up
          have hzero : usedSince ip s.prot.marks = 0 := by
            by_contra hne
            have hlive := hs ip hne
            have hrel' := hrel.2
            rw [hrel.1, Protection.protectionIpRelated_eq, hlive, Bool.or_false] at hrel'
            exact hne (hok a rfl hr hrel.1 hrel')
          omega
        · exact hu
    · rw [step, acceptCommon_prot_refused hr]
      refine iff_of_true hu fun b hb hrb => ?_
      cases hb
      exact absurd hrb hr
  · refine iff_of_true (((step_eases s fun a h => hacc ⟨a, h⟩).used_le ip).trans hu) ?_
    exact fun a h => absurd ⟨a, h⟩ hacc

end Exemption

end Listening

open Listening

/-- **The counts stay exact in a run exactly when no connection is refused for its address's cap
after a class has counted it.** While they are exact, a class admits by the room it has. The
refused connection is dropped without the count being given back, and no later step mends that. -/
theorem occupancy_exact_iff (ipMaskMatch : Text → Text → Bool) (ipLimitKey : Text → Nat → Text)
    (cfg : AcceptConfig) (now : Nat) (es : List AcceptEvent) :
    (∀ pre, pre <+: es →
      (pre.foldl (step ipMaskMatch ipLimitKey) (start cfg now)).CountsExact ∧
      (pre.foldl (step ipMaskMatch ipLimitKey) (start cfg now)).AdmitsByRoom ipMaskMatch) ↔
    Throughout (step ipMaskMatch ipLimitKey) (CountKept ipMaskMatch ipLimitKey)
      (start cfg now) es := by
  have hstep : ∀ s e, Classed s → CountsExact s →
      ((step ipMaskMatch ipLimitKey s e).CountsExact ↔ CountKept ipMaskMatch ipLimitKey s e) :=
    fun _ e hk he => countsExact_step hk he e
  rw [← throughout_iff (fun _ e hk => Classed.step hk e) hstep es (start cfg now)
    (classed_start cfg now) fun _ => rfl]
  refine forall₂_congr fun pre _ => ⟨fun h => h.1, fun h => ⟨h, h.admitsByRoom⟩⟩

/-- One class for two addresses, two connections in it and one for each address. -/
def sharedClass : AcceptConfig where
  classes := [⟨["203.0.113.9".toList, "203.0.113.10".toList], 2, 1, 0⟩]
  classes_le := by decide
  maxConnections := 0
  maxConnectionsPerIp := 0
  ipv6LimitPrefix := 64
  blEnabled := false
  blacklists := 0
  scan := ⟨false, [], 256, 10, 0, 4096, [], []⟩

/-- The second connection from an address is refused and stays counted: the class is full with one
connection in it. -/
theorem occupancy_leaks :
    ¬ ∀ (cfg : AcceptConfig) (now : Nat) (es : List AcceptEvent),
      (es.foldl (step caseEq fun ip _ => ip) (start cfg now)).CountsExact ∧
      (es.foldl (step caseEq fun ip _ => ip) (start cfg now)).AdmitsByRoom caseEq := by
  intro h
  have hcount := (h sharedClass 0
    [.accept ⟨5, "203.0.113.9".toList, false, false, []⟩,
      .accept ⟨6, "203.0.113.9".toList, false, false, []⟩]).1 0
  revert hcount
  decide +kernel

/-- **The exemption is used once each time it is armed exactly when no second connection comes
while probes are in flight.** The slot is cleared by its use, but a probe of the address that is
still in flight exempts the connection anyway and arms it again. -/
theorem exemption_single_iff (ipMaskMatch : Text → Text → Bool) (ipLimitKey : Text → Nat → Text)
    (ip : Ip4) (cfg : AcceptConfig) (now : Nat) (es : List AcceptEvent) :
    (∀ pre, pre <+: es → usedSince ip
      (pre.foldl (step ipMaskMatch ipLimitKey) (start cfg now)).prot.marks ≤ 1) ↔
    Throughout (step ipMaskMatch ipLimitKey) (ExemptionKept ip) (start cfg now) es := by
  have hspent : (start cfg now).prot.Spent := fun _ h => absurd rfl h
  have hkept : ∀ (s : Listening) e, s.prot.Spent →
      (step ipMaskMatch ipLimitKey s e).prot.Spent := fun _ e hs => spent_step hs e
  have hstep : ∀ (s : Listening) e, s.prot.Spent → usedSince ip s.prot.marks ≤ 1 →
      (usedSince ip (step ipMaskMatch ipLimitKey s e).prot.marks ≤ 1 ↔ s.ExemptionKept ip e) :=
    fun _ e hs hu => usedSince_step hs hu e
  exact throughout_iff hkept hstep es (start cfg now) hspent (Nat.zero_le 1)

/-- A scanner with one protocol. -/
def oneProbe : AcceptConfig where
  classes := []
  classes_le := by decide
  maxConnections := 0
  maxConnectionsPerIp := 0
  ipv6LimitPrefix := 64
  blEnabled := false
  blacklists := 0
  scan := ⟨true, [(.http, 8080)], 256, 10, 0, 4096, [], []⟩

/-- Three connections from one address: the first is scanned, and both others are exempt. -/
theorem exemption_shared :
    ¬ ∀ (ip : Ip4) (cfg : AcceptConfig) (now : Nat) (es : List AcceptEvent),
      usedSince ip (es.foldl (step caseEq fun ip _ => ip) (start cfg now)).prot.marks ≤ 1 := by
  intro h
  have hused := h ((inetPton "203.0.113.9".toList).getD 0) oneProbe 1000
    [.accept ⟨5, "203.0.113.9".toList, false, false, [some 6]⟩,
      .accept ⟨7, "203.0.113.9".toList, false, false, []⟩,
      .accept ⟨8, "203.0.113.9".toList, false, false, []⟩]
  revert hused
  decide +kernel

end SekurIRCd
