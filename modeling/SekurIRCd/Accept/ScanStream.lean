/-
# What a probe gets to see

The bytes that come back through a probe are kept in a window of 1024, and before a read that would
not fit all but the last 256 are dropped.  A target string is looked for after every read.

How the bytes are cut into reads makes no difference to what is found (`reads_hit_iff`): a target
string has at most 200 bytes, so one that ends in the new bytes starts in the window.  A SOCKS5
proxy answers the greeting first; if it does not take it, the scan is over, whatever is behind the
answer in the same read (`refused_greeting_missed`).
-/
import SekurIRCd.Accept.Scanner
import Mathlib.Data.List.Infix

namespace SekurIRCd

open Protection

/-! ## 1. One probe

A probe is followed by itself here, and a lemma says that this is what it does within
the scanner. -/

/-- What a read does to a probe. -/
inductive ProbeRead
  | hit
  | clean
  | waits (s : Probe)
deriving DecidableEq, Repr

/-- The end of `protection_handle`, for one probe. -/
def probeSearch (cfg : ScanConfig) (s : Probe) : ProbeRead :=
  if cfg.targetStrings.any (protectionFind s.buf) then .hit
  else if cfg.maxRead ≤ s.nread then .clean
  else .waits s

/-- `protection_handle` at a read, for one probe. -/
def probeRead (cfg : ScanConfig) (s : Probe) (bytes : List UInt8) : ProbeRead :=
  let s := { s with nread := s.nread + bytes.length, buf := slideIn s.buf bytes }
  if s.state = .s5Greet then
    match s.buf with
    | v :: m :: rest =>
      if v ≠ 5 ∨ m ≠ 0 then .clean else probeSearch cfg { s with buf := rest, state := .reading }
    | _ => .waits s
  else probeSearch cfg s

/-- The probe's part of `protection_handle` is what it does to the scanner. -/
theorem protectionHandle_data (cfg : ScanConfig) (p : Protection) (s : Probe) (bytes : List UInt8)
    (hs : s.state ≠ .connecting) : p.protectionHandle cfg s (.data bytes) =
      match probeRead cfg s bytes with
      | .hit => p.scanHit s
      | .clean => p.scanDoneClean cfg s
      | .waits s' => p.setProbe s' := by
  have hsearch : ∀ s' : Probe, s'.ip = s.ip → s'.fd = s.fd → p.scanRead cfg s' =
      match probeSearch cfg s' with
      | .hit => p.scanHit s
      | .clean => p.scanDoneClean cfg s
      | .waits s' => p.setProbe s' := by
    intro s' hip hfd
    rw [scanRead, probeSearch]
    split
    · rw [scanHit, scanHit, hip]
    · split
      · rw [scanDoneClean, scanDoneClean, scanUnlink,
          scanUnlink, hip, hfd]
      · rfl
  obtain ⟨ip, proto, port, fd, state, deadline, buf, nread⟩ := s
  cases state with
  | connecting => exact absurd rfl hs
  | reading => exact hsearch _ rfl rfl
  | s5Greet =>
    simp only [protectionHandle, probeRead, if_true]
    rcases slideIn buf bytes with _ | ⟨v, _ | ⟨m, rest⟩⟩
    · rfl
    · rfl
    · simp only
      split
      · rfl
      · exact hsearch _ rfl rfl

/-- The reads one after the other, until the probe is over. -/
def probeReads (cfg : ScanConfig) (s : Probe) : List (List UInt8) → ProbeRead
  | [] => .waits s
  | bytes :: reads =>
    match probeRead cfg s bytes with
    | .waits s' => probeReads cfg s' reads
    | answer => answer

/-- The bytes of the reads, up to and including the one that reaches `maxRead`; `n` were read
before. -/
def received (maxRead : Nat) : Nat → List (List UInt8) → List UInt8
  | _, [] => []
  | n, bytes :: reads =>
    if maxRead ≤ n + bytes.length then bytes
    else bytes ++ received maxRead (n + bytes.length) reads

/-- A target string occurs in the bytes, as one piece, wherever it stands. -/
def Occurs (cfg : ScanConfig) (bytes : List UInt8) : Prop := ∃ t ∈ cfg.targetStrings, t <:+: bytes

/-- The target strings and the limit as the configuration allows them. The lengths are such that a
target fits into the window that is kept between two reads. -/
structure ScanConfig.Ok (cfg : ScanConfig) : Prop where
  targets : ∀ t ∈ cfg.targetStrings, t ≠ [] ∧ t.length ≤ 200
  maxRead : 64 ≤ cfg.maxRead ∧ cfg.maxRead ≤ 65536

/-! ## 2. The window

The window is the end of what was seen, and long enough for all but one byte of any
target string. -/

theorem protectionFind_iff {hay needle : List UInt8} :
    protectionFind hay needle = true ↔ needle ≠ [] ∧ needle <:+: hay := by
  rw [protectionFind, Bool.and_eq_true, decide_eq_true_iff, List.any_eq_true]
  refine and_congr_right fun _ => ?_
  rw [List.infix_iff_prefix_suffix]
  refine exists_congr fun t => ?_
  rw [List.mem_tails, List.isPrefixOf_iff_prefix, and_comm]

theorem search_iff {cfg : ScanConfig} (hcfg : cfg.Ok) {buf : List UInt8} :
    cfg.targetStrings.any (protectionFind buf) = true ↔ Occurs cfg buf := by
  rw [List.any_eq_true]
  refine exists_congr fun t => and_congr_right fun ht => ?_
  rw [protectionFind_iff]
  exact and_iff_right (hcfg.targets t ht).1

theorem probeSearch_hit {cfg : ScanConfig} (hcfg : cfg.Ok) {s : Probe} (h : Occurs cfg s.buf) :
    probeSearch cfg s = .hit := if_pos ((search_iff hcfg).mpr h)

theorem probeSearch_miss {cfg : ScanConfig} (hcfg : cfg.Ok) {s : Probe} (h : ¬ Occurs cfg s.buf) :
    probeSearch cfg s = if cfg.maxRead ≤ s.nread then .clean else .waits s :=
  if_neg (mt (search_iff hcfg).mp h)

/-- The window holds the end of the bytes so far: all, or 256 of them at least. -/
structure Window (buf seen : List UInt8) : Prop where
  suffix : buf <:+ seen
  enough : buf = seen ∨ scanKeep ≤ buf.length

theorem Window.read {buf seen bytes : List UInt8} (h : Window buf seen)
    (hbytes : bytes.length ≤ 512) : Window (slideIn buf bytes) (seen ++ bytes) := by
  obtain ⟨front, rfl⟩ := h.suffix
  unfold slideIn
  split
  next hfull =>
    refine ⟨⟨front ++ buf.take (buf.length - scanKeep), ?_⟩, Or.inr ?_⟩
    · rw [List.append_assoc, ← List.append_assoc (buf.take _), List.take_append_drop,
        List.append_assoc]
    · rw [List.length_append, List.length_drop]
      simp only [scanBuf, scanKeep] at hfull ⊢
      omega
  next =>
    refine ⟨⟨front, by simp⟩, ?_⟩
    rcases h.enough with heq | hlen
    · exact Or.inl (congrArg (· ++ bytes) heq)
    · refine Or.inr ?_
      rw [List.length_append]
      omega

/-- What ends in the new bytes starts in the window. -/
theorem Window.occurs_iff {cfg : ScanConfig} (hcfg : cfg.Ok) {buf seen bytes : List UInt8}
    (h : Window buf seen) (hbytes : bytes.length ≤ 512) (hnot : ¬ Occurs cfg seen) :
    Occurs cfg (slideIn buf bytes) ↔ Occurs cfg (seen ++ bytes) := by
  have hnew := h.read hbytes
  constructor
  · rintro ⟨t, ht, hin⟩
    exact ⟨t, ht, hin.trans hnew.suffix.isInfix⟩
  · rintro ⟨t, ht, x, y, hxy⟩
    refine ⟨t, ht, ?_⟩
    have hlen := (hcfg.targets t ht).2
    -- it does not end before the new bytes
    have hend : seen.length < x.length + t.length := by
      by_contra hle
      have hpre : x ++ t <+: seen :=
        List.prefix_of_prefix_length_le ⟨y, hxy⟩ (List.prefix_append seen bytes) (by
          rw [List.length_append]
          omega)
      exact hnot ⟨t, ht, (List.suffix_append x t).isInfix.trans hpre.isInfix⟩
    obtain ⟨front, hfront⟩ := hnew.suffix
    have hshort : front.length ≤ x.length := by
      have hall := congrArg List.length hfront
      rw [List.length_append, List.length_append] at hall
      obtain ⟨gone, hgone⟩ := h.suffix
      have hseen := congrArg List.length hgone
      rw [List.length_append] at hseen
      have hkeep : slideIn buf bytes = buf ++ bytes ∨
          (slideIn buf bytes).length = scanKeep + bytes.length := by
        unfold slideIn
        split
        next hfull =>
          refine Or.inr ?_
          rw [List.length_append, List.length_drop]
          simp only [scanBuf, scanKeep] at hfull ⊢
          omega
        next => exact Or.inl rfl
      have hold : buf.length = seen.length ∨ 256 ≤ buf.length :=
        h.enough.imp (congrArg List.length) id
      rcases hkeep with hkeep | hkeep
      · rw [hkeep, List.length_append] at hall
        omega
      · rw [hkeep, scanKeep] at hall
        omega
    have hcut := congrArg (List.drop front.length) (hfront.trans hxy.symm)
    rw [List.drop_left, List.append_assoc, List.drop_append_of_le_length hshort] at hcut
    exact ⟨x.drop front.length, y, by rw [hcut, List.append_assoc]⟩

/-! ## 3. All the reads

What is found is compared with a search in all the bytes at once, so how they were cut cannot
matter. -/

variable {cfg : ScanConfig}

theorem occurs_append {a b : List UInt8} (h : Occurs cfg a) : Occurs cfg (a ++ b) := by
  obtain ⟨t, ht, hin⟩ := h
  exact ⟨t, ht, hin.trans (List.prefix_append a b).isInfix⟩

/-- **A probe that reads** hits exactly when a target string occurs in what was seen before and what
is received. -/
theorem reading_hit_iff (hcfg : cfg.Ok) (reads : List (List UInt8))
    (hreads : ∀ bytes ∈ reads, bytes.length ≤ 512) (s : Probe) (seen : List UInt8)
    (hs : s.state = .reading) (hw : Window s.buf seen) (hnot : ¬ Occurs cfg seen) :
    probeReads cfg s reads = .hit ↔ Occurs cfg (seen ++ received cfg.maxRead s.nread reads) := by
  induction reads generalizing s seen with
  | nil =>
    rw [probeReads, received, List.append_nil]
    exact iff_of_false (by simp) hnot
  | cons bytes reads ih =>
    obtain ⟨hbytes, hrest⟩ := List.forall_mem_cons.mp hreads
    have hfound := hw.occurs_iff hcfg hbytes hnot
    rw [probeReads, received, probeRead]
    simp only [hs, reduceCtorEq, if_false]
    by_cases hocc : Occurs cfg (seen ++ bytes)
    · rw [probeSearch_hit hcfg (hfound.mpr hocc)]
      refine iff_of_true rfl ?_
      split
      · exact hocc
      · rw [← List.append_assoc]
        exact occurs_append hocc
    · rw [probeSearch_miss hcfg (mt hfound.mp hocc)]
      simp only
      by_cases hmax : cfg.maxRead ≤ s.nread + bytes.length
      · rw [if_pos hmax, if_pos hmax]
        exact iff_of_false (by simp) hocc
      · rw [if_neg hmax, if_neg hmax, ← List.append_assoc]
        exact ih hrest _ _ rfl (hw.read hbytes) hocc

/-- A SOCKS5 proxy takes the greeting: no authentication. -/
def GreetingTaken (bytes : List UInt8) : Prop := bytes.take 2 = [5, 0]

instance (bytes : List UInt8) : Decidable (GreetingTaken bytes) :=
  inferInstanceAs (Decidable (_ = _))

/-- The part of what is received in which a target string counts. For SOCKS5 it is what is behind
the answer to the greeting, if that answer takes it. -/
def relayedBytes (socks5 : Bool) (bytes : List UInt8) : Option (List UInt8) :=
  if socks5 then if GreetingTaken bytes then some (bytes.drop 2) else none else some bytes

theorem not_occurs_nil (hcfg : cfg.Ok) : ¬ Occurs cfg [] := by
  rintro ⟨t, ht, hin⟩
  exact (hcfg.targets t ht).1 (List.infix_nil.mp hin)

/-- **A probe that greets** hits exactly when the greeting is taken and a target string occurs
behind the answer. -/
theorem greeting_hit_iff (hcfg : cfg.Ok) (reads : List (List UInt8))
    (hreads : ∀ bytes ∈ reads, bytes.length ≤ 512) (s : Probe) (hs : s.state = .s5Greet)
    (hshort : s.buf.length < 2) (hnread : s.nread = s.buf.length) :
    probeReads cfg s reads = .hit ↔
      GreetingTaken (s.buf ++ received cfg.maxRead s.nread reads) ∧
        Occurs cfg ((s.buf ++ received cfg.maxRead s.nread reads).drop 2) := by
  induction reads generalizing s with
  | nil =>
    rw [probeReads, received, List.append_nil]
    refine iff_of_false (by simp) fun h => ?_
    have hlen := congrArg List.length h.1
    rw [List.length_take] at hlen
    simp only [List.length_cons, List.length_nil] at hlen
    omega
  | cons bytes reads ih =>
    obtain ⟨hbytes, hrest⟩ := List.forall_mem_cons.mp hreads
    have hslide : slideIn s.buf bytes = s.buf ++ bytes := by
      rw [slideIn, if_neg]
      rw [scanBuf]
      omega
    have hmax := hcfg.maxRead.1
    rw [probeReads, probeRead]
    simp only [hs, if_true, hslide]
    rcases hb : s.buf ++ bytes with _ | ⟨v, _ | ⟨m, rest⟩⟩
    · -- nothing yet
      simp only
      have hlen := congrArg List.length hb
      rw [List.length_append, List.length_nil] at hlen
      rw [received, if_neg (by omega), ← List.append_assoc, hb]
      exact ih hrest { s with state := .s5Greet, nread := s.nread + bytes.length, buf := [] } rfl
        (by simp) (by
        simp only [List.length_nil]
        omega)
    · simp only
      have hlen := congrArg List.length hb
      rw [List.length_append, List.length_singleton] at hlen
      rw [received, if_neg (by omega), ← List.append_assoc, hb]
      exact ih hrest { s with state := .s5Greet, nread := s.nread + bytes.length, buf := [v] } rfl
        (by simp) (by
        simp only [List.length_singleton]
        omega)
    · simp only
      -- the answer is there
      have hall : s.buf ++ received cfg.maxRead s.nread (bytes :: reads) = v :: m :: (rest ++
          if cfg.maxRead ≤ s.nread + bytes.length then []
          else received cfg.maxRead (s.nread + bytes.length) reads) := by
        rw [received]
        split
        · rw [hb, List.append_nil]
        · rw [← List.append_assoc, hb, List.cons_append, List.cons_append]
      rw [hall]
      simp only [GreetingTaken, List.take_succ_cons, List.take_zero, List.cons.injEq, and_true,
        List.drop_succ_cons, List.drop_zero]
      by_cases hno : v ≠ 5 ∨ m ≠ 0
      · rw [if_pos hno]
        exact iff_of_false (by simp) fun h => hno.elim (· h.1.1) (· h.1.2)
      · rw [if_neg hno]
        rw [not_or, not_not, not_not] at hno
        refine Iff.trans ?_ (and_iff_right hno).symm
        by_cases hocc : Occurs cfg rest
        · rw [probeSearch_hit hcfg hocc]
          exact iff_of_true rfl (occurs_append hocc)
        · rw [probeSearch_miss hcfg hocc]
          simp only
          by_cases hend : cfg.maxRead ≤ s.nread + bytes.length
          · rw [if_pos hend, if_pos hend, List.append_nil]
            exact iff_of_false (by simp) hocc
          · rw [if_neg hend, if_neg hend]
            exact reading_hit_iff hcfg reads hrest _ rest rfl
              ⟨List.suffix_rfl, Or.inl rfl⟩ hocc

/-- A probe that is connected and has read nothing. -/
def Probe.greeted (s : Probe) : Prop :=
  s.state = (if s.proto = .socks5 then .s5Greet else .reading) ∧ s.buf = [] ∧ s.nread = 0

/-- **How the bytes are cut** makes no difference to what is found: a probe hits exactly when a
target string occurs in the part that counts, up to the limit on what is read. For SOCKS5 that part
begins behind the greeting, which may itself come in two pieces. -/
theorem reads_hit_iff (hcfg : cfg.Ok) (s : Probe) (hs : s.greeted) (reads : List (List UInt8))
    (hreads : ∀ bytes ∈ reads, bytes.length ≤ 512) :
    probeReads cfg s reads = .hit ↔
      ∃ bytes ∈ relayedBytes (decide (s.proto = .socks5)) (received cfg.maxRead 0 reads),
        Occurs cfg bytes := by
  obtain ⟨hstate, hbuf, hnread⟩ := hs
  by_cases hp : s.proto = .socks5
  · rw [if_pos hp] at hstate
    have h := greeting_hit_iff hcfg reads hreads s hstate (by simp [hbuf]) (by simp [hbuf, hnread])
    rw [hbuf, List.nil_append, hnread] at h
    rw [h, decide_eq_true hp, relayedBytes, if_pos rfl]
    by_cases hg : GreetingTaken (received cfg.maxRead 0 reads)
    · simp [hg]
    · simp [hg]
  · rw [if_neg hp] at hstate
    have h := reading_hit_iff hcfg reads hreads s [] hstate
      (hbuf ▸ ⟨List.suffix_rfl, Or.inl rfl⟩) (not_occurs_nil hcfg)
    rw [List.nil_append, hnread] at h
    rw [h, decide_eq_false hp, relayedBytes, if_neg (by simp)]
    simp

/-- One short target string. -/
def bannerScan : ScanConfig where
  scanEnabled := true
  protocols := [(.socks5, 1080)]
  maxConcurrent := 8
  timeoutSecs := 10
  negcacheSecs := 0
  maxRead := 64
  targetStrings := [[72, 105]]
  exempt := []

theorem bannerScan_ok : bannerScan.Ok := ⟨by decide, by decide⟩

def socksProbe : Probe := ⟨1, .socks5, 1080, 7, .s5Greet, 10, [], 0⟩

/-- The target string comes in two reads, behind a greeting that is taken. -/
theorem reads_hit_iff_demo :
    probeReads bannerScan socksProbe [[5], [0, 33, 72], [105]] = .hit ↔
      ∃ bytes ∈ relayedBytes true (received 64 0 [[5], [0, 33, 72], [105]]),
        Occurs bannerScan bytes :=
  reads_hit_iff bannerScan_ok socksProbe ⟨rfl, rfl, rfl⟩ _ (by decide)

/-- **A proxy that does not take the greeting** is let go, though the target string is behind its
answer. -/
theorem refused_greeting_missed :
    bannerScan.Ok ∧ socksProbe.greeted ∧
      ¬ (probeReads bannerScan socksProbe [[5, 255, 72, 105]] = .hit ↔
        Occurs bannerScan ((received bannerScan.maxRead 0 [[5, 255, 72, 105]]).drop 2)) := by
  refine ⟨bannerScan_ok, ⟨rfl, rfl, rfl⟩, fun h => ?_⟩
  have hmiss : probeReads bannerScan socksProbe [[5, 255, 72, 105]] = .clean := by decide
  have hocc : Occurs bannerScan ((received bannerScan.maxRead 0 [[5, 255, 72, 105]]).drop 2) :=
    ⟨[72, 105], by decide, [], [], by decide⟩
  exact absurd (hmiss.symm.trans (h.mpr hocc)) (by simp)

end SekurIRCd
