/-
# Every server's copy of a user

A user registers on one server, and the servers of the network come to hold copies of it: those
linked at the time by the UID line its server sends, those linked later by the burst of the
server they link to, and from then on by the line each change is announced with.  A copy follows
as far as the lines carry what they say (`Meets`); then, in every state, it is its user as soon
as nothing is on the way to it any more (`user_copies_agree`).  Nobody else wants the user's
nick here; a link that breaks takes the servers behind it off the network, and they forget the
user before they are linked again.

Middle parameters do not carry everything.  A service has no IP address, and its UID line says
so with a star, which the handler takes for the address (`service_address_lost`).
-/
import SekurIRCd.Lib.Runs
import SekurIRCd.Lib.Cascade
import SekurIRCd.Net.UserLines

namespace SekurIRCd

open CLib Cascade

namespace UserSync

/-! ## 1. What happens to a user

The servers and their links are the tree of `Lib.Cascade`, with the user's own server at the top.
What a node holds is its copy of the user, or none. -/

/-- Text out of a line. -/
abbrev Param := { t : Text // Unbroken t }

/-- What the clock says. -/
abbrev Stamp := { z : Int // 0 ≤ z ∧ z ≤ longMax }

/-- A change of a registered user that its server announces. -/
inductive Change
  | nick (newnick : Text) (now : Stamp)
  | umode (umodes : Umode → Bool)
  | away (first last : Param)
  | chghost (user host : Text) (identConfirmed : Bool)
  | setname (text : Param)
  | login (account : Text)
  | logout

/-- What becomes of the user; `none` where the server refuses and announces nothing.  MODE and
OPER leave the mode of those who have an account alone. -/
def Change.apply (u : UserState) : Change → Option UserState
  | nick newnick now =>
    if ircValidNick newnick (nickLen - 1) = true then
      some { u with nick := clip nickLen newnick, nickTs := now.1 }
    else none
  | umode umodes => some { u with umodes := setR umodes (u.umodes .r) }
  | away first last =>
    if first.1 = [] then some { u with isAway := false, away := [] }
    else some { u with isAway := true, away := clip 400 (last.1.take 399) }
  | chghost user host f =>
    some { u with user := clip 64 user, host := clip 256 host, identConfirmed := f }
  | setname text => some { u with realname := clip 512 (text.1.take 390) }
  | login account => some { u with account := clip 64 account, umodes := setR u.umodes true }
  | logout =>
    if u.account ≠ [] then some { u with account := [], umodes := setR u.umodes false } else none

/-- The line that announces it, made from the changed user. -/
def Change.line (id : Identity) (u : UserState) : Change → Text
  | nick .. => netsyncUserNick id u
  | umode _ => netsyncUserModes id u
  | away .. => netsyncUserAway id u
  | chghost .. => netsyncUserChghost id u
  | setname _ => netsyncUserSetname id u
  | login _ | logout => netsyncUserAccount id u

/-- What that line says. -/
def Change.tells (u : UserState) : Change → Update
  | nick .. => .nick u.nick u.nickTs
  | umode _ => .umode u.umodes u.isService
  | away .. => .away u.isAway u.away
  | chghost .. => .chghost u.user u.host u.identConfirmed
  | setname _ => .setname u.realname
  | login _ | logout => .account u.account (u.umodes .r)

/-- What the lines of `sendUidLine` say. -/
def introduction (u : UserState) (hop : Int) : List Update :=
  .uid hop u :: ((if u.certfp ≠ [] then [.certfp u.certfp] else []) ++
    if u.isAway then [.away true u.away] else [])

/-- What happens on the network: the user registers, changes, or a link comes up between a
server of the user's side and one that is new there, or breaks, or a line arrives. -/
inductive Event
  | register (u : { u : UserState // u.Ok })
  | change (c : Change)
  | link (n p : Text)
  | split (n : Text)
  | deliver (n : Text)

/-- The servers by their SIDs, with their copies and the lines on their way to them. -/
abbrev Net := Cascade.Tree Text (Option UserState) Text

def recvLine (id : Identity) (line : Text) (s : Option UserState) : Option UserState × List Text :=
  netsyncHandle id s line

/-- A link can come up to a server that is not there yet. -/
def Linkable (id : Identity) (t : Net) (n p : Text) : Prop :=
  n ≠ id.sid ∧ t.up n = none ∧ (p = id.sid ∨ t.up p ≠ none)

instance (id : Identity) (t : Net) (n p : Text) : Decidable (Linkable id t n p) :=
  inferInstanceAs (Decidable (_ ∧ _ ∧ _))

/-- The part of `send_burst` about the user. -/
def burstUser (id : Identity) (t : Net) (p : Text) : List Text :=
  match t.held p with
  | some u => sendUidLine id u ((t.hop p : Int) + 1)
  | none => []

def step (id : Identity) (t : Net) : Event → Net
  | .register u =>
    match t.held id.sid with
    | none => t.publish id.sid (some u.1) (sendUidLine id u.1 ((t.hop id.sid : Int) + 1))
    | some _ => t
  | .change c =>
    match (t.held id.sid).bind c.apply with
    | some u => t.publish id.sid (some u) [c.line id u]
    | none => t
  | .link n p => if Linkable id t n p then t.join n p (burstUser id t p) else t
  | .split n => if n = id.sid then t else t.cut none n
  | .deliver n => t.deliver (recvLine id) n

/-- Nobody is linked yet, and the user has not registered. -/
def start : Net := ⟨fun _ => none, fun _ => none, fun _ => 0, fun _ => []⟩

/-- **Every line that is sent carries what it says.** This is asked of the lines, and so of what
users may have in their fields. -/
def Meets (id : Identity) (t : Net) : Event → Prop
  | .register u => t.held id.sid = none → (∃ n, t.up n = some id.sid) →
      ∀ a ∈ introduction u.1 ((t.hop id.sid : Int) + 1), a.Carried id
  | .change c => (∃ n, t.up n = some id.sid) →
      ∀ u, (t.held id.sid).bind c.apply = some u → (c.tells u).Carried id
  | .link n p => Linkable id t n p →
      ∀ u, t.held p = some u → ∀ a ∈ introduction u ((t.hop p : Int) + 1), a.Carried id
  | .split _ => True
  | .deliver n => t.held n = none → (∃ k, t.up k = some n) →
      ∀ hop u rest, t.due n = (Update.uid hop u).line id :: rest → (Update.uid hop u).Carried id →
        (Update.uid (atoi (hopText hop) + 1) u).Carried id

/-! ## 2. What a change keeps

A change is announced by a line, and the line says what has changed. Whether it arrives as it was
said is up to what is in it. -/

theorem Unbroken.take {t : Text} (h : Unbroken t) (n : Nat) : Unbroken (t.take n) :=
  ⟨fun hm => h.1 (List.mem_of_mem_take hm), fun hm => h.2 (List.mem_of_mem_take hm)⟩

theorem Change.apply_ok {u v : UserState} (h : u.Ok) {c : Change} (hc : c.apply u = some v) : v.Ok := by
  cases c with
  | nick n now =>
    simp only [Change.apply] at hc
    split at hc
    · rename_i hn
      obtain rfl := Option.some.inj hc
      have hlen := valid_nick_length hn
      have hclip : clip nickLen n = n := clip_of_fits (by simp only [nickLen] at hlen ⊢; omega)
      exact { h with nick := hclip.symm ▸ hn, nickTs := now.2 }
    · exact absurd hc (by simp)
  | umode ms =>
    obtain rfl := Option.some.inj hc
    exact { h with identified := h.identified }
  | away first last =>
    simp only [Change.apply] at hc
    split at hc
    · obtain rfl := Option.some.inj hc
      exact { h with away := ⟨by simp, by simp [Unbroken]⟩, here := fun _ => rfl }
    · obtain rfl := Option.some.inj hc
      have hlen := clip_length_le 400 (last.1.take 399)
      exact { h with
        away := ⟨by simp only; omega, (last.2.take 399).take 399⟩
        here := fun e => absurd e (by simp) }
  | chghost us ho f =>
    obtain rfl := Option.some.inj hc
    have h1 := clip_length_le 64 us
    have h2 := clip_length_le 256 ho
    exact { h with user := by simp only; omega, host := by simp only; omega }
  | setname text =>
    obtain rfl := Option.some.inj hc
    have hlen := clip_length_le 512 (text.1.take 390)
    exact { h with realname := ⟨by simp only; omega, (text.2.take 390).take 511⟩ }
  | login a =>
    obtain rfl := Option.some.inj hc
    have hlen := clip_length_le 64 a
    exact { h with account := by simp only; omega, identified := fun _ => rfl }
  | logout =>
    simp only [Change.apply] at hc
    split at hc
    · obtain rfl := Option.some.inj hc
      exact { h with account := by simp, identified := fun e => absurd rfl e }
    · exact absurd hc (by simp)

theorem Change.line_tells (id : Identity) (u : UserState) (c : Change) :
    c.line id u = (c.tells u).line id := by
  cases c <;> rfl

/-- **What is announced is what has changed.** -/
theorem Change.tells_apply {u v : UserState} (h : u.Ok) {c : Change} (hc : c.apply u = some v) :
    (c.tells v).apply (some u) = some v := by
  cases c with
  | nick n now =>
    simp only [Change.apply] at hc
    split at hc
    · obtain rfl := Option.some.inj hc
      rfl
    · exact absurd hc (by simp)
  | umode ms =>
    obtain rfl := Option.some.inj hc
    have hkept : (if u.account ≠ [] then setR (setR ms (u.umodes .r)) true
        else setR ms (u.umodes .r)) = setR ms (u.umodes .r) := by
      split
      · rename_i ha
        funext m
        by_cases hm : m = .r
        · simp [setR, hm, h.identified ha]
        · simp [setR, hm]
      · rfl
    simp only [Change.tells, Update.apply, Option.map_some, hkept]
  | away first last =>
    simp only [Change.apply] at hc
    split at hc
    · obtain rfl := Option.some.inj hc
      rfl
    · obtain rfl := Option.some.inj hc
      rfl
  | chghost us ho f =>
    obtain rfl := Option.some.inj hc
    rfl
  | setname text =>
    obtain rfl := Option.some.inj hc
    rfl
  | login a =>
    obtain rfl := Option.some.inj hc
    rfl
  | logout =>
    simp only [Change.apply] at hc
    split at hc
    · obtain rfl := Option.some.inj hc
      rfl
    · exact absurd hc (by simp)

/-! ## 3. What an introduction says -/

variable {id : Identity}

/-- The fingerprint goes out in a longer buffer than it is passed on in; it fits either. -/
theorem certfp_line {f : Text} (h : (Update.certfp f).Carried id) :
    (ircBuild 1100 [] (some id.uid) "CERTFP".toList [f] none).text = (Update.certfp f).line id := by
  obtain ⟨hf, hlen⟩ := h
  have huid := id.uid_shape.length
  simp only [uidLen] at huid
  have hesc : ircEscape 1024 "CERTFP".toList ≠ [] := by decide
  have hshort : (ircLine id.uid "CERTFP".toList [f]).length < 200 := by
    rw [ircLine_length id.uid_shape.source (by decide) (by simpa using hf)]
    simp [huid]
    omega
  rw [Update.line, ircBuild_of_fits hesc hshort, ircBuild_of_fits hesc (by omega)]

theorem away_line {t : Text} (h : (Update.away true t).Carried id) :
    (ircBuild 1100 [] (some id.uid) "AWAY".toList [] (some t)).text =
      (Update.away true t).line id := by
  obtain ⟨-, hlen, ht⟩ := h
  have huid := id.uid_shape.length
  simp only [uidLen] at huid
  have hesc : ircEscape 1024 "AWAY".toList ≠ [] := by decide
  have hshort : (ircLineTrailing id.uid "AWAY".toList [] t).length < 500 := by
    rw [ircLineTrailing_length id.uid_shape.source (by decide) (by simp) ht (by omega)]
    simp [huid]
    omega
  rw [Update.line, if_pos rfl, ircBuild_trailing_of_fits hesc hshort,
    ircBuild_trailing_of_fits hesc (by omega)]

theorem sendUidLine_eq {u : UserState} {hop : Int} (h : ∀ a ∈ introduction u hop, a.Carried id) :
    sendUidLine id u hop = (introduction u hop).map (Update.line id) := by
  have hcert : (if u.certfp ≠ [] then
        [(ircBuild 1100 [] (some id.uid) "CERTFP".toList [u.certfp] none).text] else []) =
      (if u.certfp ≠ [] then [Update.certfp u.certfp] else []).map (Update.line id) := by
    split
    · rename_i hne
      have hmem : Update.certfp u.certfp ∈ introduction u hop := by
        simp [introduction, hne]
      rw [certfp_line (h _ hmem)]
      rfl
    · rfl
  have haway : (if u.isAway then
        [(ircBuild 1100 [] (some id.uid) "AWAY".toList [] (some u.away)).text] else []) =
      (if u.isAway then [Update.away true u.away] else []).map (Update.line id) := by
    split
    · rename_i hb
      have hmem : Update.away true u.away ∈ introduction u hop := by
        simp [introduction, hb]
      rw [away_line (h _ hmem)]
      rfl
    · rfl
  rw [sendUidLine, hcert, haway, introduction, List.map_cons, List.map_append]
  rfl

/-- What a server holds after the lines of some updates. -/
theorem told_lines : ∀ {as : List Update} {s : Option UserState}, (∀ a ∈ as, a.Carried id) →
    told (recvLine id) s (as.map (Update.line id)) = as.foldl (fun s a => a.apply s) s
  | [], _, _ => rfl
  | a :: as, s, h => by
    have ha : (recvLine id (a.line id) s).1 = a.apply s := by
      rw [recvLine, netsyncHandle_line (h a (by simp))]
      rfl
    rw [List.map_cons, told_cons, ha, List.foldl_cons]
    exact told_lines fun x hx => h x (List.mem_cons_of_mem a hx)

/-- **An introduction says all there is.** -/
theorem introduction_apply {u : UserState} (h : u.Ok) (hop : Int) :
    (introduction u hop).foldl (fun s a => a.apply s) none = some u := by
  have hcert : (if u.certfp ≠ [] then [Update.certfp u.certfp] else []).foldl
      (fun s a => a.apply s) (some u.introduced) = some { u with isAway := false, away := [] } := by
    split
    · rfl
    · rename_i hc
      rw [not_not] at hc
      rw [UserState.introduced, hc]
      rfl
  have haway : (if u.isAway then [Update.away true u.away] else []).foldl (fun s a => a.apply s)
      (some { u with isAway := false, away := [] }) = some u := by
    split
    · rename_i hb
      simp only [List.foldl_cons, List.foldl_nil, Update.apply, Option.map_some]
      rw [← hb]
    · rename_i hb
      have hoff : u.isAway = false := by simpa using hb
      simp only [List.foldl_nil]
      rw [← h.here hoff, ← hoff]
  have hfresh : (Update.uid hop u).apply none = some u.introduced := rfl
  rw [introduction, List.foldl_cons, List.foldl_append, hfresh, hcert]
  exact haway

/-! ## 4. Runs

The library keeps the copies in step; what is shown here is that each event is one of its steps. -/

/-- Everything on its way is a line that carries an update. -/
def Told (id : Identity) (line : Text) : Prop := ∃ a : Update, a.Carried id ∧ line = a.line id

/-- Every server's copy is on its way to be the one of the server above it. -/
abbrev InStep (id : Identity) (t : Net) : Prop :=
  Synced (recvLine id) id.sid none (fun s => ∀ u, s = some u → u.Ok) (Told id) t

theorem inStep_start (id : Identity) : InStep id start where
  root_top := rfl
  linked := fun _ _ h => absurd h (by simp [start])
  falls := fun _ _ h => absurd h (by simp [start])
  idle := fun _ _ => rfl
  unlinked := fun _ _ _ => rfl
  good := fun _ _ h => absurd h (by simp [start])
  sound := fun _ _ h => absurd h (by simp [start])
  ahead := fun _ _ h => absurd h (by simp [start])

theorem Update.apply_ok {a : Update} (ha : a.Carried id) {s : Option UserState}
    (hs : ∀ u, s = some u → u.Ok) : ∀ v, a.apply s = some v → v.Ok := by
  intro v hv
  cases s with
  | none =>
    cases a with
    | uid hop u =>
      obtain rfl := Option.some.inj hv
      exact { ha.1 with
        away := ⟨by simp [UserState.introduced], by simp [UserState.introduced, Unbroken]⟩
        here := fun _ => rfl
        certfp := by simp [UserState.introduced] }
    | _ => exact absurd hv (by simp [Update.apply])
  | some u =>
    have hu := hs u rfl
    cases a with
    | uid hop w =>
      obtain rfl := Option.some.inj hv
      exact hu
    | nick n ts =>
      obtain rfl := Option.some.inj hv
      exact { hu with nick := ha.1, nickTs := ha.2 }
    | umode ms svc =>
      obtain rfl := Option.some.inj hv
      have hr : u.account ≠ [] → (if u.account ≠ [] then setR ms true else ms) .r = true := by
        intro hne
        rw [if_pos hne]
        rfl
      exact { hu with identified := hr }
    | away b text =>
      obtain rfl := Option.some.inj hv
      obtain ⟨hb, hlen, ht⟩ := ha
      refine { hu with away := ⟨hlen, ht⟩, here := fun e => ?_ }
      by_contra hne
      exact absurd (hb.mpr hne) (by simpa using e)
    | chghost us ho f =>
      obtain rfl := Option.some.inj hv
      exact { hu with user := ha.1.2, host := ha.2.2 }
    | setname text =>
      obtain rfl := Option.some.inj hv
      exact { hu with realname := ⟨by have := ha.1; simp only; omega, ha.2⟩ }
    | account a r =>
      obtain rfl := Option.some.inj hv
      exact { hu with account := ha.2.2, identified := ha.1.mpr }
    | certfp f =>
      obtain rfl := Option.some.inj hv
      exact { hu with certfp := ha.2 }

theorem told_of_carried {as : List Update} (h : ∀ a ∈ as, a.Carried id) :
    ∀ x ∈ as.map (Update.line id), Told id x := by
  intro x hx
  obtain ⟨a, ha, rfl⟩ := List.mem_map.mp hx
  exact ⟨a, h a ha, rfl⟩

/-- What is passed on does to a copy what was heard. -/
theorem Update.passed_apply (a : Update) (s : Option UserState) :
    (a.passed s).foldl (fun s a => a.apply s) s = a.apply s := by
  cases s <;> cases a <;> rfl

/-- **One step keeps the copies in step.** -/
theorem inStep_step {t : Net} (h : InStep id t) {e : Event} (he : Meets id t e) :
    InStep id (step id t e) := by
  cases e with
  | register u =>
    simp only [step]
    split
    · rename_i hnone
      refine h.publish (fun v hv => Option.some.inj hv ▸ u.2) fun hlinked => ?_
      have hcar := he hnone hlinked
      rw [sendUidLine_eq hcar, hnone, told_lines hcar, introduction_apply u.2]
      exact ⟨told_of_carried hcar, rfl⟩
    · exact h
  | change c =>
    simp only [step]
    split
    · rename_i v hv
      obtain ⟨u, hu, hc⟩ := Option.bind_eq_some_iff.mp hv
      have hok : u.Ok := h.good id.sid u hu
      refine h.publish (fun w hw => Option.some.inj hw ▸ Change.apply_ok hok hc) fun hlinked => ?_
      have hcar : ∀ a ∈ [c.tells v], a.Carried id := by simpa using he hlinked v hv
      have htold := told_lines (s := some u) hcar
      rw [List.map_singleton, ← Change.line_tells] at htold
      rw [hu, htold, List.foldl_cons, List.foldl_nil, Change.tells_apply hok hc]
      refine ⟨?_, rfl⟩
      simpa [Change.line_tells] using told_of_carried hcar
    · exact h
  | link n p =>
    simp only [step]
    split
    · rename_i hl
      obtain ⟨hn, hfree, hp⟩ := hl
      have hon : p = id.sid ∨ ∃ q, t.up p = some q := hp.imp_right Option.ne_none_iff_exists'.mp
      cases hu : t.held p with
      | none =>
        simp only [burstUser, hu]
        exact h.join hn hfree hon (by simp) hu.symm
      | some u =>
        have hcar := he ⟨hn, hfree, hp⟩ u hu
        simp only [burstUser, hu]
        rw [sendUidLine_eq hcar]
        refine h.join hn hfree hon (told_of_carried hcar) ?_
        rw [told_lines hcar, introduction_apply (h.good p u hu), hu]
    · exact h
  | split n =>
    simp only [step]
    split
    · exact h
    · rename_i hn
      exact h.cut hn fun u hu => absurd hu (by simp)
  | deliver n =>
    refine h.deliver fun m ms hd hm hgood => ?_
    obtain ⟨a, ha, rfl⟩ := hm
    have hrecv : recvLine id (a.line id) (t.held n) = a.heard id (t.held n) :=
      netsyncHandle_line ha _
    rw [hrecv]
    refine ⟨Update.apply_ok ha hgood, fun hbelow => ?_⟩
    have hcar : ∀ b ∈ a.passed (t.held n), b.Carried id := by
      intro b hb
      cases hu : t.held n with
      | none =>
        rw [hu] at hb
        cases a with
        | uid hop u =>
          rw [List.mem_singleton.mp hb]
          exact he hu hbelow hop u ms hd ha
        | _ => exact absurd hb List.not_mem_nil
      | some v =>
        rw [hu] at hb
        cases a with
        | uid hop u => exact absurd hb List.not_mem_nil
        | _ =>
          rw [List.mem_singleton.mp hb]
          exact ha
    exact ⟨told_of_carried hcar, (told_lines hcar).trans (Update.passed_apply a _)⟩

/-- A run from a network without links, in which the user is still to register. -/
def run (id : Identity) (es : List Event) : Net := es.foldl (step id) start

/-- **Every linked server's copy is the user, once nothing is on the way to it**, in every run
whose lines carry what they say. Elsewhere on the network lines may still be under way: the
invariant is about one link at a time, and says what the lines on it will make of the copy. -/
theorem user_copies_agree (id : Identity) (es : List Event)
    (h : Runs.Throughout (step id) (Meets id) start es) {n : Text}
    (hn : n = id.sid ∨ ∃ p, (run id es).up n = some p) (hq : (run id es).Settled n) :
    (run id es).held n = (run id es).held id.sid := by
  have hstep : ∀ t e, InStep id t → Meets id t e → InStep id (step id t e) :=
    fun _ _ ht he => inStep_step ht he
  have hsync : InStep id (run id es) :=
    Runs.invariant_of_step hstep es start (inStep_start id) h
  exact hsync.held_eq hn hq

/-! ## 5. Two users -/

def demoId : Identity where
  sid := "001".toList
  uid := "001AAAAAA".toList
  sid_shape := by decide
  uid_shape := by decide
  own := by decide

/-- Someone who connected from a host of its own. -/
def demoUser : UserState where
  nick := "ada".toList
  nickTs := 7
  user := "ada".toList
  host := "cloak.users.net".toList
  realhost := "ada.example.org".toList
  ip := "192.0.2.7".toList
  realname := "Ada".toList
  account := []
  umodes := fun m => m == .i
  isService := false
  identConfirmed := true
  isAway := false
  away := []
  certfp := []

theorem demoUser_ok : demoUser.Ok where
  nick := by decide
  nickTs := by decide
  user := by decide
  host := by decide
  realhost := by decide
  ip := by decide
  realname := by decide
  account := by decide
  identified := by decide
  away := by decide
  here := by decide
  certfp := by decide

theorem demoTea_unbroken : Unbroken "tea".toList := by decide

def demoTea : Param := ⟨"tea".toList, demoTea_unbroken⟩

/-- The other server is there first; then the user registers, and goes away. -/
def demoRun : List Event :=
  [.link "002".toList "001".toList, .register ⟨demoUser, demoUser_ok⟩, .deliver "002".toList,
    .change (.away demoTea demoTea), .deliver "002".toList]

theorem demo_leaf {t : Net} (ht : t.up = (step demoId start (.link "002".toList "001".toList)).up) :
    ¬ ∃ k, t.up k = some "002".toList := by
  rintro ⟨k, hk⟩
  rw [ht] at hk
  by_cases hkn : k = "002".toList
  · rw [hkn] at hk
    exact absurd hk (by decide)
  · exact absurd ((Function.update_of_ne hkn ..).symm.trans hk) (by simp [start])

theorem demoRun_meets : Runs.Throughout (step demoId) (Meets demoId) start demoRun := by
  refine ⟨fun _ u hu => ?_, fun _ _ a ha => ?_, fun _ hk => ?_, fun _ u hu => ?_, fun _ hk => ?_,
    trivial⟩
  · exact absurd hu (by simp [start])
  · obtain rfl : a = .uid 1 demoUser := List.mem_singleton.mp ha
    exact ⟨demoUser_ok, by decide, fun hne => absurd rfl hne, by decide +kernel⟩
  · exact absurd hk (demo_leaf rfl)
  · have hv : some { demoUser with isAway := true, away := "tea".toList } = some u := hu
    obtain rfl := Option.some.inj hv
    exact ⟨by decide, by decide, by decide⟩
  · exact absurd hk (demo_leaf rfl)

theorem user_copies_agree_demo :
    (run demoId demoRun).held "002".toList = (run demoId demoRun).held "001".toList :=
  user_copies_agree demoId demoRun demoRun_meets (Or.inr ⟨"001".toList, by decide +kernel⟩)
    (by decide +kernel)

/-- A service: it was introduced by its services link, and has no address. -/
def demoService : UserState where
  nick := "ChanServ".toList
  nickTs := 7
  user := "services".toList
  host := "services.net".toList
  realhost := "services.net".toList
  ip := []
  realname := "Channel services".toList
  account := []
  umodes := fun _ => false
  isService := true
  identConfirmed := true
  isAway := false
  away := []
  certfp := []

theorem demoService_ok : demoService.Ok where
  nick := by decide
  nickTs := by decide
  user := by decide
  host := by decide
  realhost := by decide
  ip := by decide
  realname := by decide
  account := by decide
  identified := by decide
  away := by decide
  here := by decide
  certfp := by decide

def demoServiceRun : List Event :=
  [.link "002".toList "001".toList, .register ⟨demoService, demoService_ok⟩, .deliver "002".toList]

/-- **The other servers take the star for the address of a service.** -/
theorem service_address_lost :
    ¬ ∀ (id : Identity) (es : List Event) (n : Text), (∃ p, (run id es).up n = some p) →
      (run id es).Settled n → (run id es).held n = (run id es).held id.sid := by
  intro hall
  have heq := hall demoId demoServiceRun "002".toList ⟨"001".toList, by decide +kernel⟩
    (by decide +kernel)
  have hcopy : ((run demoId demoServiceRun).held "002".toList).map UserState.ip = some ['*'] := by
    decide +kernel
  have huser : ((run demoId demoServiceRun).held demoId.sid).map UserState.ip = some [] := by
    decide +kernel
  rw [heq, huser] at hcopy
  exact absurd hcopy (by decide)

end UserSync

end SekurIRCd
