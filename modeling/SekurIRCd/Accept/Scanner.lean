/-
# The proxy scanner

The server tries to relay through the address that a client comes from, back to itself; if its own
banner comes back, the address is an open proxy.  The relayed connection comes from the address
being scanned, so a connection from there is "scan-related" for a while: while a probe of the
address is in flight, or while the address is live in the table of recent scans.

That table is direct-mapped: 64 slots, indexed by a multiplicative hash of the address.  A slot is
armed when a scan starts and when it ends, and used up by a related connection.  A probe in flight
is not used up (`protectionIpRelated_eq`).

What happens to the exemption is written down in `marks`, which the code does not have.
-/
import SekurIRCd.Lib.CString

namespace SekurIRCd

open CLib

/-! ## 1. The state

A slot of a table is an address and a time, and an address is live in a table if its slot has it
and the time has not come. -/

/-- An IPv4 address as `inet_pton` stores it. -/
abbrev Ip4 := UInt32

/-- `prot_slot_t`. -/
structure ProtSlot where
  ip : Ip4
  live : Nat
deriving DecidableEq, Repr

inductive ScanProto
  | http | httppost | socks4 | socks5
deriving DecidableEq, Repr

/-- `ST_CONNECTING`, `ST_S5_GREET`, `ST_READING`. -/
inductive ProbeState
  | connecting | s5Greet | reading
deriving DecidableEq, Repr

/-- `protection_scan`: one probe in flight. `fd` is its socket, open while it is. `buf` is the
window that was kept of what it has read, and `nread` counts all of it. -/
structure Probe where
  ip : Ip4
  proto : ScanProto
  port : Nat
  fd : Nat
  state : ProbeState
  deadline : Nat
  buf : List UInt8
  nread : Nat
deriving DecidableEq, Repr

/-- What happens to an address's exemption. -/
inductive ScanMark
  | armed (ip : Ip4)
  | related (ip : Ip4)
deriving DecidableEq, Repr

/-- `protection_state_t`, and the clock. -/
structure Protection where
  scans : List Probe
  negcache : Nat → ProtSlot
  recent : Nat → ProtSlot
  now : Nat
  /-- Newest first. -/
  marks : List ScanMark

/-- The scanner's part of `cfg_protection_t`; `timeoutSecs` is `scan_timeout` rounded up. -/
structure ScanConfig where
  scanEnabled : Bool
  protocols : List (ScanProto × Nat)
  maxConcurrent : Nat
  timeoutSecs : Nat
  negcacheSecs : Nat
  maxRead : Nat
  targetStrings : List (List UInt8)
  exempt : List Text
deriving Repr

def protNegcacheSlots : Nat := 1024
def protRecentSlots : Nat := 64
def recentGrace : Nat := 15
def scanBuf : Nat := 1024
def scanKeep : Nat := 256

/-! ## 2. The tables

Two addresses with the same slot drive each other out, so a table can forget an address but never
make one up. -/

/-- `slot_for`: the index of an address's slot in a table of `n`. -/
def slotFor (n : Nat) (ip : Ip4) : Nat := (ip * 2654435761).toNat % n

def slotLive (tab : Nat → ProtSlot) (n : Nat) (ip : Ip4) (now : Nat) : Bool :=
  (tab (slotFor n ip)).ip == ip && decide (now < (tab (slotFor n ip)).live)

def slotSet (tab : Nat → ProtSlot) (n : Nat) (ip : Ip4) (live : Nat) : Nat → ProtSlot :=
  Function.update tab (slotFor n ip) ⟨ip, live⟩

theorem slotLive_slotSet_self {tab : Nat → ProtSlot} {n : Nat} {ip : Ip4} {live now : Nat} :
    slotLive (slotSet tab n ip live) n ip now = decide (now < live) := by
  simp [slotLive, slotSet]

/-- Setting another address's slot may evict an address, and never revives one. -/
theorem slotLive_slotSet_of_ne {tab : Nat → ProtSlot} {n : Nat} {ip ip' : Ip4} {live now : Nat}
    (hne : ip' ≠ ip) (h : slotLive tab n ip now = false) :
    slotLive (slotSet tab n ip' live) n ip now = false := by
  by_cases hs : slotFor n ip = slotFor n ip'
  · simp [slotLive, slotSet, hs, hne]
  · have hsame : slotSet tab n ip' live (slotFor n ip) = tab (slotFor n ip) :=
      Function.update_of_ne hs ..
    rw [slotLive, hsame]
    exact h

/-- A slot that is not live stays so as time passes. -/
theorem slotLive_of_le {tab : Nat → ProtSlot} {n : Nat} {ip : Ip4} {now now' : Nat}
    (hle : now ≤ now') (h : slotLive tab n ip now = false) : slotLive tab n ip now' = false := by
  simp only [slotLive, Bool.and_eq_false_iff, decide_eq_false_iff_not] at h ⊢
  exact h.imp_right fun hn hn' => hn (hle.trans_lt hn')

/-! ## 3. The scanner

The functions of `protection.c`, in its order. What they do to sockets is left out, but for which
are open. -/

namespace Protection

def ipHasScans (p : Protection) (ip : Ip4) : Bool := p.scans.any (·.ip == ip)

/-- The address's exemption is good for `secs` from now. -/
def arm (p : Protection) (ip : Ip4) (secs : Nat) : Protection :=
  { p with recent := slotSet p.recent protRecentSlots ip (p.now + secs)
           marks := .armed ip :: p.marks }

/-- The address is live in the table of recent scans. -/
def recentLive (p : Protection) (ip : Ip4) : Bool := slotLive p.recent protRecentSlots ip p.now

def scanUnlink (p : Protection) (s : Probe) : Protection :=
  { p with scans := p.scans.eraseP (·.fd == s.fd) }

/-- `scan_done_clean`: with its address's last probe the address is clean. -/
def scanDoneClean (cfg : ScanConfig) (p : Protection) (s : Probe) : Protection :=
  let p := p.scanUnlink s
  if p.ipHasScans s.ip then p
  else
    let p := p.arm s.ip recentGrace
    if 0 < cfg.negcacheSecs then
      { p with negcache := slotSet p.negcache protNegcacheSlots s.ip (p.now + cfg.negcacheSecs) }
    else p

/-- `scan_hit`, as far as the scanner's own state goes: one confirmed relay is enough.  The ban and
the disconnections are the callers' other steps. -/
def scanHit (p : Protection) (s : Probe) : Protection :=
  Protection.arm { p with scans := p.scans.filter (·.ip ≠ s.ip) } s.ip recentGrace

/-- `protection_ip_related`: whether a connection comes from an address being scanned. A live slot
is emptied by this. -/
def protectionIpRelated (p : Protection) (addr : Option Ip4) : Bool × Protection :=
  match addr with
  | none => (false, p)
  | some ip =>
    if !p.ipHasScans ip && !p.recentLive ip then (false, p)
    else (true, { p with recent := slotSet p.recent protRecentSlots ip p.now
                         marks := .related ip :: p.marks })

/-- `start_probe` for one protocol; `fd` is the socket it opened, if that went well. -/
def startProbe (cfg : ScanConfig) (p : Protection) (ip : Ip4) (pr : ScanProto × Nat)
    (fd : Option Nat) : Protection :=
  match fd with
  | none => p
  | some fd =>
    { p with scans :=
        { ip, proto := pr.1, port := pr.2, fd, state := .connecting
          deadline := p.now + cfg.timeoutSecs, buf := [], nread := 0 } :: p.scans }

/-- `protection_scan_start`.  `fds` are the sockets that the probes would open, one for each
protocol; `protection_exempt` is asked for by the caller's `isExempt`. -/
def protectionScanStart (cfg : ScanConfig) (p : Protection) (addr : Option Ip4) (isExempt : Bool)
    (fds : List (Option Nat)) : Protection :=
  match addr with
  | none => p
  | some ip =>
    if cfg.scanEnabled = false ∨ cfg.protocols = [] then p
    else if isExempt then p
    else if slotLive p.negcache protNegcacheSlots ip p.now then p
    else if p.ipHasScans ip then p
    else if cfg.maxConcurrent < p.scans.length + cfg.protocols.length then p
    else
      let started := (cfg.protocols.zip fds).filter (·.2.isSome)
      let p := started.foldl (fun p prfd => p.startProbe cfg ip prfd.1 prfd.2) p
      if started = [] then p else p.arm ip (cfg.timeoutSecs + recentGrace)

/-- `PROTECT SCAN`: a scan on request, whatever the negative cache says. -/
def protectScan (cfg : ScanConfig) (p : Protection) (addr : Option Ip4) (isExempt : Bool)
    (fds : List (Option Nat)) : Protection :=
  match addr with
  | none => p
  | some ip =>
    if cfg.scanEnabled = false then p
    else
      let p := { p with negcache := slotSet p.negcache protNegcacheSlots ip 0 }
      p.protectionScanStart cfg addr isExempt fds

/-- What the event loop finds at a probe's socket. -/
inductive ProbeEvent
  | connected
  | connectFailed
  | again
  | readError
  | closed
  | data (bytes : List UInt8)
deriving Repr

/-- `protection_find`, as a yes or no. -/
def protectionFind (hay needle : List UInt8) : Bool :=
  decide (needle ≠ []) && hay.tails.any (needle.isPrefixOf ·)

/-- The sliding window with `bytes` read into it. -/
def slideIn (buf bytes : List UInt8) : List UInt8 :=
  (if scanBuf < buf.length + bytes.length then buf.drop (buf.length - scanKeep) else buf) ++ bytes

def setProbe (p : Protection) (s : Probe) : Protection :=
  { p with scans := p.scans.map fun t => if t.fd == s.fd then s else t }

/-- The end of `protection_handle`: the bytes so far are searched for a target string. -/
def scanRead (cfg : ScanConfig) (p : Protection) (s : Probe) : Protection :=
  if cfg.targetStrings.any (protectionFind s.buf) then p.scanHit s
  else if cfg.maxRead ≤ s.nread then p.scanDoneClean cfg s
  else p.setProbe s

/-- `protection_handle`. A probe that fails or is closed is done; one for SOCKS5 takes the answer
to its greeting first, and then it is searched like any other. -/
def protectionHandle (cfg : ScanConfig) (p : Protection) (s : Probe) (e : ProbeEvent) :
    Protection :=
  match s.state, e with
  | .connecting, .connectFailed => p.scanDoneClean cfg s
  | .connecting, .connected =>
    p.setProbe { s with state := if s.proto = .socks5 then .s5Greet else .reading }
  | .connecting, _ => p
  | _, .readError => p.scanDoneClean cfg s
  | _, .closed => p.scanDoneClean cfg s
  | _, .data bytes =>
    let s := { s with nread := s.nread + bytes.length, buf := slideIn s.buf bytes }
    if s.state = .s5Greet then
      match s.buf with
      | v :: m :: rest =>
        if v ≠ 5 ∨ m ≠ 0 then p.scanDoneClean cfg s
        else p.scanRead cfg { s with buf := rest, state := .reading }
      | _ => p.setProbe s
    else p.scanRead cfg s
  | _, _ => p

/-- `protection_tick`: the probes whose time is up are done. -/
def protectionTick (cfg : ScanConfig) (p : Protection) : Protection :=
  (p.scans.filter (·.deadline ≤ p.now)).foldl (fun p s => p.scanDoneClean cfg s) p

end Protection

/-! ## 4. The exemption used

The history is read from its end: since an exemption was last armed, how often was it used? -/

/-- How many connections from an address were related since its exemption was last armed. -/
def usedSince (ip : Ip4) (marks : List ScanMark) : Nat :=
  (marks.takeWhile (· ≠ .armed ip)).count (.related ip)

@[simp] theorem usedSince_nil (ip : Ip4) : usedSince ip [] = 0 := rfl

@[simp] theorem usedSince_armed (ip : Ip4) (marks : List ScanMark) :
    usedSince ip (.armed ip :: marks) = 0 := by
  simp [usedSince]

theorem usedSince_armed_of_ne {ip ip' : Ip4} (hne : ip' ≠ ip) (marks : List ScanMark) :
    usedSince ip (.armed ip' :: marks) = usedSince ip marks := by
  simp [usedSince, hne]

@[simp] theorem usedSince_related (ip : Ip4) (marks : List ScanMark) :
    usedSince ip (.related ip :: marks) = usedSince ip marks + 1 := by
  simp [usedSince]

theorem usedSince_related_of_ne {ip ip' : Ip4} (hne : ip' ≠ ip) (marks : List ScanMark) :
    usedSince ip (.related ip' :: marks) = usedSince ip marks := by
  simp [usedSince, hne]

namespace Protection

/-- An exemption that was used is not live in the table. So it is not used again before it is armed
again. -/
def Spent (p : Protection) : Prop :=
  ∀ ip, usedSince ip p.marks ≠ 0 → p.recentLive ip = false

/-- From `p` to `q` no connection was related. -/
structure Eases (p q : Protection) : Prop where
  used_le : ∀ ip, usedSince ip q.marks ≤ usedSince ip p.marks
  spent : p.Spent → q.Spent

namespace Eases

theorem refl (p : Protection) : p.Eases p := ⟨fun _ => le_rfl, id⟩

theorem trans {p q r : Protection} (h : p.Eases q) (h' : q.Eases r) : p.Eases r :=
  ⟨fun ip => (h'.used_le ip).trans (h.used_le ip), fun hs => h'.spent (h.spent hs)⟩

/-- What does not touch the table and the marks eases. -/
theorem of_eq {p q : Protection} (hr : q.recent = p.recent) (hn : p.now ≤ q.now)
    (hm : q.marks = p.marks) : p.Eases q := by
  refine ⟨fun ip => by rw [hm], fun hs ip hu => ?_⟩
  rw [hm] at hu
  have hd := hs ip hu
  rw [recentLive, hr]
  exact slotLive_of_le hn hd

theorem arm (p : Protection) (ip : Ip4) (secs : Nat) : p.Eases (p.arm ip secs) := by
  constructor
  · intro ip'
    by_cases hne : ip = ip'
    · subst hne
      rw [Protection.arm, usedSince_armed]
      exact Nat.zero_le _
    · exact (usedSince_armed_of_ne hne p.marks).le
  · intro hs ip' hu
    by_cases hne : ip = ip'
    · subst hne
      exact absurd (usedSince_armed ip p.marks) hu
    · rw [Protection.arm, usedSince_armed_of_ne hne] at hu
      exact slotLive_slotSet_of_ne hne (hs ip' hu)

theorem foldl {α : Type} {f : Protection → α → Protection} (hf : ∀ (p : Protection) a, p.Eases (f p a)) :
    ∀ (as : List α) (p : Protection), p.Eases (as.foldl f p)
  | [], p => refl p
  | a :: as, p => (hf p a).trans (foldl hf as (f p a))

theorem scanDoneClean (cfg : ScanConfig) (p : Protection) (s : Probe) :
    p.Eases (p.scanDoneClean cfg s) := by
  have hunlink : p.Eases (p.scanUnlink s) := of_eq rfl le_rfl rfl
  simp only [Protection.scanDoneClean]
  split
  · exact hunlink
  · have harm := hunlink.trans (arm (p.scanUnlink s) s.ip recentGrace)
    split
    · exact harm.trans (of_eq rfl le_rfl rfl)
    · exact harm

theorem scanHit (p : Protection) (s : Probe) : p.Eases (p.scanHit s) :=
  (of_eq rfl le_rfl rfl : p.Eases { p with scans := p.scans.filter (·.ip ≠ s.ip) }).trans
    (arm _ s.ip recentGrace)

theorem protectionScanStart (cfg : ScanConfig) (p : Protection) (addr : Option Ip4)
    (isExempt : Bool) (fds : List (Option Nat)) :
    p.Eases (p.protectionScanStart cfg addr isExempt fds) := by
  cases addr with
  | none => exact refl p
  | some ip =>
    have hprobes : ∀ started : List ((ScanProto × Nat) × Option Nat),
        p.Eases (started.foldl (fun p prfd => p.startProbe cfg ip prfd.1 prfd.2) p) := by
      refine fun started => foldl (fun p prfd => ?_) started p
      unfold startProbe
      split
      · exact refl p
      · exact of_eq rfl le_rfl rfl
    simp only [Protection.protectionScanStart]
    split_ifs
    · exact refl p
    · exact refl p
    · exact refl p
    · exact refl p
    · exact refl p
    · exact hprobes _
    · exact (hprobes _).trans (arm _ ip _)

theorem protectScan (cfg : ScanConfig) (p : Protection) (addr : Option Ip4) (isExempt : Bool)
    (fds : List (Option Nat)) : p.Eases (p.protectScan cfg addr isExempt fds) := by
  cases addr with
  | none => exact refl p
  | some ip =>
    simp only [Protection.protectScan]
    split_ifs
    · exact refl p
    · have hcache : p.Eases
          { p with negcache := slotSet p.negcache protNegcacheSlots ip 0 } := of_eq rfl le_rfl rfl
      exact hcache.trans (protectionScanStart cfg _ (some ip) isExempt fds)

theorem scanRead (cfg : ScanConfig) (p : Protection) (s : Probe) : p.Eases (p.scanRead cfg s) := by
  unfold Protection.scanRead
  split_ifs
  · exact scanHit p s
  · exact scanDoneClean cfg p s
  · exact of_eq rfl le_rfl rfl

theorem protectionHandle (cfg : ScanConfig) (p : Protection) (s : Probe) (e : ProbeEvent) :
    p.Eases (p.protectionHandle cfg s e) := by
  unfold Protection.protectionHandle
  split
  · exact scanDoneClean cfg p s
  · exact of_eq rfl le_rfl rfl
  · exact refl p
  · exact scanDoneClean cfg p s
  · exact scanDoneClean cfg p s
  · simp only []
    split
    · split
      · split
        · exact scanDoneClean cfg p _
        · exact scanRead cfg p _
      · exact of_eq rfl le_rfl rfl
    · exact scanRead cfg p _
  · exact refl p

theorem protectionTick (cfg : ScanConfig) (p : Protection) : p.Eases (p.protectionTick cfg) :=
  foldl (scanDoneClean cfg) _ p

end Eases

/-! ## 5. A related connection

There are two ways to be related. The first, a probe in flight, arms the slot that the second then
uses. -/

/-- A connection is related while its address is scanned, or once from the table. -/
theorem protectionIpRelated_eq {p : Protection} {ip : Ip4} :
    (p.protectionIpRelated (some ip)).1 = (p.ipHasScans ip || p.recentLive ip) := by
  cases hs : p.ipHasScans ip <;> cases hl : p.recentLive ip <;> simp [protectionIpRelated, hs, hl]

theorem protectionIpRelated_spent {p : Protection} (h : p.Spent) (addr : Option Ip4) :
    (p.protectionIpRelated addr).2.Spent := by
  unfold protectionIpRelated
  split
  · exact h
  · rename_i ip
    split
    · exact h
    · intro ip' hu
      by_cases hne : ip = ip'
      · subst hne
        exact slotLive_slotSet_self.trans (by simp)
      · rw [usedSince_related_of_ne hne] at hu
        exact slotLive_slotSet_of_ne hne (h ip' hu)

/-- Each related connection is one use of its address's exemption. -/
theorem usedSince_protectionIpRelated (p : Protection) (addr : Option Ip4) (ip : Ip4) :
    usedSince ip (p.protectionIpRelated addr).2.marks =
      usedSince ip p.marks +
        if addr = some ip ∧ (p.protectionIpRelated addr).1 = true then 1 else 0 := by
  unfold protectionIpRelated
  split
  · simp
  · rename_i ip'
    split
    · simp
    · by_cases hne : ip' = ip
      · subst hne
        simp
      · simp [usedSince_related_of_ne hne, hne]

end Protection

end SekurIRCd
