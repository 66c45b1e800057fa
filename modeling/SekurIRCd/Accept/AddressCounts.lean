/-
# Counts for addresses

Each connection with a socket is counted under the key that its address had when it was accepted.
The key is kept with the connection: neither the real address that a gateway sends later nor
another prefix length in a new configuration changes under which key it is taken out again.

The counts are exact as long as `ip_count_inc` gets memory (`addressCounts_exact_iff`).  A
connection for which there was none is not counted, but when it goes it is taken out of what is
counted under its key by then.

Whether the other checks of `accept_common` let a connection in comes with the step.
-/
import SekurIRCd.Address
import SekurIRCd.Lib.Runs
import SekurIRCd.Lib.Tally

namespace SekurIRCd

open CLib Runs Tally

/-! ## 1. The state -/

/-- A client, as far as it is counted.  Services and remote users have no socket. -/
structure CountedClient where
  fd : Option Nat
  ip : Text
  countKey : Text
  /-- `ip_count_inc` has counted it; the code does not remember that. -/
  counted : Bool
deriving DecidableEq, Repr

/-- The server's lists and counts.  `allClients` are the connections with a socket. -/
structure AddressCounts where
  ipv6LimitPrefix : Int
  nClients : Int
  ipCounts : Table Text
  allClients : List CountedClient
  pseudos : List CountedClient
deriving DecidableEq, Repr

/-- What the other checks of `accept_common` say: they turn the connection away, or its address may
have so many connections (no cap is 0, as for the scanner's own). -/
inductive AcceptChecks
  | refused
  | upTo (perIpCap : Nat)
deriving DecidableEq, Repr

/-- What happens to connections; `alloc` says whether there is memory for an entry, and `ip` of a
real address is what `irc_ip_normalize` makes of it. -/
inductive CountEvent
  | accept (fd : Nat) (ip : Text) (checks : AcceptChecks) (alloc : Bool)
  | realAddress (k : Nat) (ip : Option Text)
  | rehash (ipv6LimitPrefix : Int)
  | introduce
  | removeClient (k : Nat)
  | removePseudo (k : Nat)
deriving DecidableEq, Repr

namespace AddressCounts

def start (ipv6LimitPrefix : Int) : AddressCounts := ⟨ipv6LimitPrefix, 0, [], [], []⟩

/-! ## 2. The steps

The counts change where a connection enters the lists and where it leaves them, and nowhere else. -/

section Steps

variable (inet : IpText) (s : AddressCounts)

/-- `server_ip_key`. -/
def serverIpKey (ip : Text) (outsz : Nat) : Text := ircIpLimitKey inet ip s.ipv6LimitPrefix outsz

/-- `server_ip_count`. -/
def serverIpCount (ip : Text) : Int := (s.ipCounts.find (s.serverIpKey inet ip 64)).getD 0

/-- `server_add_connection`. -/
def serverAddConnection (cl : CountedClient) (alloc : Bool) : AddressCounts :=
  let key := s.serverIpKey inet cl.ip 64
  { s with
    allClients := { cl with
      countKey := key
      counted := alloc || (s.ipCounts.find key).isSome } :: s.allClients
    nClients := s.nClients + 1
    ipCounts := s.ipCounts.inc key alloc }

/-- `accept_common`, after `accept`. -/
def acceptCommon (fd : Nat) (ip : Text) (checks : AcceptChecks) (alloc : Bool) : AddressCounts :=
  match checks with
  | .refused => s
  | .upTo cap =>
    if 0 < cap ∧ (cap : Int) ≤ s.serverIpCount inet ip then s
    else s.serverAddConnection inet ⟨some fd, ip, [], false⟩ alloc

/-- `unlink_connection` of the client at `k` in its list. -/
def unlinkConnection (cl : CountedClient) (k : Nat) : AddressCounts :=
  match cl.fd with
  | none => s
  | some _ =>
    { s with
      allClients := s.allClients.eraseIdx k
      nClients := s.nClients - 1
      ipCounts := s.ipCounts.dec cl.countKey }

/-- One step of the server. -/
def step (s : AddressCounts) : CountEvent → AddressCounts
  | .accept fd ip checks alloc => s.acceptCommon inet fd ip checks alloc
  | .realAddress k (some ip) =>
    { s with allClients := s.allClients.modify k fun cl => { cl with ip := ip } }
  | .realAddress _ none => s
  | .rehash ipv6LimitPrefix => { s with ipv6LimitPrefix := ipv6LimitPrefix }
  | .introduce => { s with pseudos := ⟨none, [], [], false⟩ :: s.pseudos }
  | .removeClient k =>
    match s.allClients[k]? with
    | none => s
    | some cl => s.unlinkConnection cl k
  | .removePseudo k =>
    match s.pseudos[k]? with
    | none => s
    | some cl => { s.unlinkConnection cl k with pseudos := s.pseudos.eraseIdx k }

end Steps

/-! ## 3. What the counts say

The counts are compared with the keys that the live connections have kept, not with the addresses
that they have now. -/

/-- The keys that live connections were counted under. -/
def keys (cls : List CountedClient) : List Text :=
  (cls.filter CountedClient.counted).map CountedClient.countKey

/-- **The counts are exact**: each key has the number of the live connections counted under it,
there is no entry for any other, and the number of all connections is right. -/
def Exact (s : AddressCounts) : Prop :=
  Counts s.ipCounts (keys s.allClients) ∧ s.nClients = s.allClients.length

/-- A connection that was not counted is not removed while its key has an entry. Where there is no
entry, the removal finds nothing to take it out of. -/
def Paired (s : AddressCounts) : CountEvent → Prop
  | .removeClient k => ∀ cl ∈ s.allClients[k]?, cl.counted = false →
      s.ipCounts.find cl.countKey = none
  | _ => True

/-- The lists hold what they are for. -/
structure Sorted (s : AddressCounts) : Prop where
  sockets : ∀ cl ∈ s.allClients, cl.fd ≠ none
  pseudos : ∀ cl ∈ s.pseudos, cl.fd = none

theorem keys_cons (cl : CountedClient) (cls : List CountedClient) :
    keys (cl :: cls) = if cl.counted then cl.countKey :: keys cls else keys cls := by
  rw [keys, List.filter_cons]
  split
  · rfl
  · rfl

theorem keys_perm {cls cls' : List CountedClient} (h : cls.Perm cls') :
    (keys cls).Perm (keys cls') := (h.filter _).map _

/-! ## 4. One step

The condition on a step is just what the step needs, so that the condition on a run is
exact, too. -/

section Step

variable {inet : IpText} {s : AddressCounts}

/-- A new address leaves the connection under its key. -/
theorem keys_modify (cls : List CountedClient) (k : Nat) (ip : Text) :
    keys (cls.modify k fun cl => { cl with ip := ip }) = keys cls := by
  induction cls generalizing k with
  | nil => cases k <;> rfl
  | cons cl cls ih =>
    cases k with
    | zero =>
      rw [List.modify_zero_cons, keys_cons, keys_cons]
    | succ k => rw [List.modify_succ_cons, keys_cons, keys_cons, ih]

theorem Exact.serverAddConnection (h : s.Exact) (cl : CountedClient) (alloc : Bool) :
    (s.serverAddConnection inet cl alloc).Exact := by
  have hn : s.nClients + 1 = ((s.allClients.length + 1 : Nat) : Int) := by
    rw [h.2]
    rfl
  refine ⟨?_, hn⟩
  show Counts (s.ipCounts.inc (s.serverIpKey inet cl.ip 64) alloc) (keys (_ :: s.allClients))
  rw [keys_cons]
  by_cases hfind : s.ipCounts.find (s.serverIpKey inet cl.ip 64) = none
  · cases alloc with
    | true =>
      rw [if_pos (by simp)]
      exact h.1.inc
    | false =>
      have hsame : s.ipCounts.inc (s.serverIpKey inet cl.ip 64) false = s.ipCounts := by
        rw [Table.inc, hfind]
        rfl
      rw [if_neg (by simp [hfind]), hsame]
      exact h.1
  · have hcounted : (alloc || (s.ipCounts.find (s.serverIpKey inet cl.ip 64)).isSome) = true := by
      rw [Option.isSome_iff_ne_none.mpr hfind, Bool.or_true]
    rw [if_pos hcounted, inc_of_some hfind]
    exact h.1.inc

/-- **A removal** keeps the counts exactly when the connection was counted, or its key has no
entry. -/
theorem exact_unlinkConnection (h : s.Exact) {k : Nat} {cl : CountedClient}
    (hk : s.allClients[k]? = some cl) (hfd : cl.fd ≠ none) :
    (s.unlinkConnection cl k).Exact ↔
      (cl.counted = false → s.ipCounts.find cl.countKey = none) := by
  obtain ⟨fd, hfd⟩ := Option.ne_none_iff_exists'.mp hfd
  obtain ⟨hlt, hget⟩ := List.getElem?_eq_some_iff.mp hk
  have hperm : (keys s.allClients).Perm (keys (cl :: s.allClients.eraseIdx k)) := by
    refine keys_perm ?_
    rw [← hget]
    exact (List.getElem_cons_eraseIdx_perm hlt).symm
  have hn : s.nClients - 1 = ((s.allClients.eraseIdx k).length : Int) := by
    rw [h.2, List.length_eraseIdx_of_lt hlt]
    omega
  have hunlink : (s.unlinkConnection cl k).Exact ↔
      Counts (s.ipCounts.dec cl.countKey) (keys (s.allClients.eraseIdx k)) := by
    rw [unlinkConnection, hfd]
    exact and_iff_left hn
  have hcounts := h.1.perm hperm
  rw [hunlink]
  rw [keys_cons] at hcounts
  cases hc : cl.counted with
  | true =>
    rw [hc, if_pos rfl] at hcounts
    exact iff_of_true hcounts.dec_cons fun hno => absurd hno.symm Bool.false_ne_true
  | false =>
    rw [hc, if_neg Bool.false_ne_true] at hcounts
    rw [hcounts.find_eq_none, imp_iff_right rfl]
    constructor
    · intro hdec hmem
      exact hcounts.not_dec hmem hdec
    · intro hmem
      rw [hcounts.dec_of_notMem hmem]
      exact hcounts

theorem Sorted.step (h : s.Sorted) (e : CountEvent) : (s.step inet e).Sorted := by
  cases e with
  | accept fd ip checks alloc =>
    cases checks with
    | refused => exact h
    | upTo cap =>
      show (if _ then s else s.serverAddConnection inet ⟨some fd, ip, [], false⟩ alloc).Sorted
      split
      · exact h
      · refine ⟨fun cl hcl => ?_, h.pseudos⟩
        rcases List.mem_cons.mp hcl with rfl | hcl
        · exact Option.some_ne_none fd
        · exact h.sockets cl hcl
  | realAddress k ip =>
    cases ip with
    | none => exact h
    | some ip =>
      refine ⟨fun cl hcl => ?_, h.pseudos⟩
      have hcl : cl ∈ s.allClients.modify k fun cl => { cl with ip := ip } := hcl
      obtain ⟨c, hc, hfd⟩ : ∃ c ∈ s.allClients, cl.fd = c.fd := by
        obtain ⟨i, hi, rfl⟩ := List.mem_iff_getElem.mp hcl
        rw [List.getElem_modify]
        split
        · exact ⟨_, List.getElem_mem _, rfl⟩
        · exact ⟨_, List.getElem_mem _, rfl⟩
      rw [hfd]
      exact h.sockets c hc
  | rehash n => exact ⟨h.sockets, h.pseudos⟩
  | introduce =>
    refine ⟨h.sockets, fun cl hcl => ?_⟩
    rcases List.mem_cons.mp hcl with rfl | hcl
    · rfl
    · exact h.pseudos cl hcl
  | removeClient k =>
    rw [AddressCounts.step.eq_def]
    simp only
    split
    · exact h
    · next cl hk =>
      rw [unlinkConnection]
      split
      · exact h
      · exact ⟨fun c hc => h.sockets c (List.mem_of_mem_eraseIdx hc), h.pseudos⟩
  | removePseudo k =>
    rw [AddressCounts.step.eq_def]
    simp only
    split
    · exact h
    · next cl hk =>
      have hfd := h.pseudos cl (List.mem_of_getElem? hk)
      rw [unlinkConnection, hfd]
      exact ⟨h.sockets, fun c hc => h.pseudos c (List.mem_of_mem_eraseIdx hc)⟩

/-- **One step** keeps the counts exactly when it meets the condition. -/
theorem exact_step (hs : s.Sorted) (h : s.Exact) (e : CountEvent) :
    (s.step inet e).Exact ↔ s.Paired e := by
  cases e with
  | accept fd ip checks alloc =>
    refine iff_of_true ?_ trivial
    cases checks with
    | refused => exact h
    | upTo cap =>
      show (if _ then s else s.serverAddConnection inet ⟨some fd, ip, [], false⟩ alloc).Exact
      split
      · exact h
      · exact h.serverAddConnection _ alloc
  | realAddress k ip =>
    refine iff_of_true ?_ trivial
    cases ip with
    | none => exact h
    | some ip =>
      refine ⟨?_, ?_⟩
      · show Counts s.ipCounts (keys (s.allClients.modify k fun cl => { cl with ip := ip }))
        rw [keys_modify]
        exact h.1
      · show s.nClients = ((s.allClients.modify k fun cl => { cl with ip := ip }).length : Int)
        rw [List.length_modify]
        exact h.2
  | rehash n => exact iff_of_true h trivial
  | introduce => exact iff_of_true h trivial
  | removeClient k =>
    rw [AddressCounts.step.eq_def, Paired]
    simp only
    split
    · next hnone =>
      rw [hnone]
      exact iff_of_true h fun cl hcl => absurd hcl (by simp)
    · next cl hk =>
      rw [exact_unlinkConnection h hk (hs.sockets cl (List.mem_of_getElem? hk)), hk]
      refine ⟨fun hno c hc => ?_, fun hno => hno cl rfl⟩
      rw [← Option.some.inj hc]
      exact hno
  | removePseudo k =>
    refine iff_of_true ?_ trivial
    rw [AddressCounts.step.eq_def]
    simp only
    split
    · exact h
    · next cl hk =>
      -- services and remote users were never counted
      rw [unlinkConnection, hs.pseudos cl (List.mem_of_getElem? hk)]
      exact h

/-- With memory for every entry, every connection is counted. -/
def AllCounted (s : AddressCounts) : Prop := ∀ cl ∈ s.allClients, cl.counted = true

theorem AllCounted.paired (h : s.AllCounted) (e : CountEvent) : s.Paired e := by
  cases e with
  | removeClient k =>
    intro cl hcl hno
    exact absurd (hno.symm.trans (h cl (List.mem_of_getElem? hcl))) Bool.false_ne_true
  | accept _ _ _ _ => trivial
  | realAddress _ _ => trivial
  | rehash _ => trivial
  | introduce => trivial
  | removePseudo _ => trivial

theorem AllCounted.step (h : s.AllCounted) (e : CountEvent)
    (he : ∀ fd ip checks, e ≠ .accept fd ip checks false) : (s.step inet e).AllCounted := by
  cases e with
  | accept fd ip checks alloc =>
    have halloc : alloc = true := by
      cases alloc with
      | true => rfl
      | false => exact absurd rfl (he fd ip checks)
    cases checks with
    | refused => exact h
    | upTo cap =>
      show (if _ then s else s.serverAddConnection inet ⟨some fd, ip, [], false⟩ alloc).AllCounted
      split
      · exact h
      · intro cl hcl
        rcases List.mem_cons.mp hcl with rfl | hcl
        · simp only [halloc, Bool.true_or]
        · exact h cl hcl
  | realAddress k ip =>
    cases ip with
    | none => exact h
    | some ip =>
      intro cl hcl
      have hcl : cl ∈ s.allClients.modify k fun cl => { cl with ip := ip } := hcl
      obtain ⟨i, hi, rfl⟩ := List.mem_iff_getElem.mp hcl
      rw [List.getElem_modify]
      have hi : i < s.allClients.length := by rwa [List.length_modify] at hi
      have hcounted := h _ (List.getElem_mem hi)
      split
      · exact hcounted
      · exact hcounted
  | rehash n => exact h
  | introduce => exact h
  | removeClient k =>
    rw [AddressCounts.step.eq_def]
    simp only
    split
    · exact h
    · next cl hk =>
      rw [unlinkConnection]
      split
      · exact h
      · exact fun c hc => h c (List.mem_of_mem_eraseIdx hc)
  | removePseudo k =>
    rw [AddressCounts.step.eq_def]
    simp only
    split
    · exact h
    · next cl hk =>
      rw [unlinkConnection]
      split
      · exact h
      · exact fun c hc => h c (List.mem_of_mem_eraseIdx hc)

end Step

end AddressCounts

open AddressCounts

/-- **The counts stay exact in a run exactly when no connection that there was no memory to count
is removed while its key has an entry.** Real addresses and new prefix lengths may come at any time
in between. -/
theorem addressCounts_exact_iff (inet : IpText) (ipv6LimitPrefix : Int) (es : List CountEvent) :
    (∀ pre, pre <+: es → (pre.foldl (step inet) (start ipv6LimitPrefix)).Exact) ↔
      Throughout (step inet) Paired (start ipv6LimitPrefix) es := by
  have hstart : (start ipv6LimitPrefix).Sorted :=
    ⟨fun cl hcl => absurd hcl List.not_mem_nil, fun cl hcl => absurd hcl List.not_mem_nil⟩
  have hkept : ∀ s e, Sorted s → Sorted (step inet s e) := fun _ e hs => hs.step e
  have hstep : ∀ s e, Sorted s → Exact s → (Exact (step inet s e) ↔ Paired s e) :=
    fun _ e hs h => exact_step hs h e
  exact throughout_iff hkept hstep es _ hstart ⟨Counts.nil, rfl⟩

/-- The first of two connections from one address is not counted; when it goes, the address has no
connection left as far as the server knows. -/
theorem addressCounts_leak :
    ¬ ∀ (inet : IpText) (ipv6LimitPrefix : Int) (es : List CountEvent),
      (es.foldl (step inet) (start ipv6LimitPrefix)).Exact := by
  intro h
  have hexact := h fullInet 64
    [.accept 5 "192.0.2.1".toList (.upTo 0) false, .accept 6 "192.0.2.1".toList (.upTo 0) true,
      .removeClient 1]
  have hcount := hexact.1 "192.0.2.1".toList
  revert hcount
  decide +kernel

/-- With memory for every entry, the counts are exact in every state that is reached. -/
theorem addressCounts_exact (inet : IpText) (ipv6LimitPrefix : Int) (es : List CountEvent)
    (halloc : ∀ fd ip checks, CountEvent.accept fd ip checks false ∉ es) :
    (es.foldl (step inet) (start ipv6LimitPrefix)).Exact := by
  refine (addressCounts_exact_iff inet ipv6LimitPrefix es).mpr ?_ es (List.prefix_refl es)
  have hstart : (start ipv6LimitPrefix).AllCounted := fun cl hcl => absurd hcl List.not_mem_nil
  revert hstart
  generalize start ipv6LimitPrefix = s
  intro hs
  induction es generalizing s with
  | nil => trivial
  | cons e es ih =>
    have he : ∀ fd ip checks, e ≠ .accept fd ip checks false := fun fd ip checks he =>
      halloc fd ip checks (he ▸ List.mem_cons_self)
    refine ⟨hs.paired e, ih (fun fd ip checks hmem => ?_) _ (hs.step e he)⟩
    exact halloc fd ip checks (List.mem_cons_of_mem e hmem)

end SekurIRCd
