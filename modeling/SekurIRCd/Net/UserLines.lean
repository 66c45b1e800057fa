/-
# The lines that carry a user

A user is on one server; every other server keeps a copy of it.  A server introduces a user to
a link with a UID line of twelve fields, followed by a CERTFP and an AWAY line where there is
something to tell (`sendUidLine`); what changes later goes out as NICK, UMODE, AWAY, CHGHOST,
SETNAME and ACCOUNT.  Each of these has a handler that changes the copy and sends the line on.

`Update` is what such a line says.  An update is carried whole (`Update.Carried`) when its line
comes out of the buffer it was built in with every field as it went in, and then the handlers do
to the copy what the update says, and pass it on (`netsyncHandle_line`).
-/
import SekurIRCd.Net.Lines

namespace SekurIRCd

open CLib

namespace UserSync

/-! ## 1. The user -/

/-- The user modes, one for each entry of `UMODE_MAP`. -/
inductive Umode
  | i | w | deaf | d | s | o | z | secureonly | r | p
  | hideidle | h | q | regonly | nopm | b | g | x | whoisnote
deriving DecidableEq, Repr

/-- The letters on the wire: older servers know `Z` as TLS, so secure-only goes as `X`. -/
def Umode.letter : Umode → Char
  | i => 'i' | w => 'w' | deaf => 'd' | d => 'T' | s => 's' | o => 'o' | z => 'Z'
  | secureonly => 'X' | r => 'r' | p => 'p' | hideidle => 'I' | h => 'H' | q => 'q'
  | regonly => 'R' | nopm => 'D' | b => 'B' | g => 'g' | x => 'x' | whoisnote => 'W'

/-- `UMODE_MAP`. -/
def umodeMap : List Umode :=
  [.i, .w, .deaf, .d, .s, .o, .z, .secureonly, .r, .p, .hideidle, .h, .q, .regonly, .nopm, .b, .g,
    .x, .whoisnote]

/-- What the servers know of a user: `client_t`, as far as links carry it. -/
structure UserState where
  nick : Text
  nickTs : Int
  user : Text
  host : Text
  realhost : Text
  ip : Text
  realname : Text
  account : Text
  umodes : Umode → Bool
  isService : Bool
  identConfirmed : Bool
  isAway : Bool
  away : Text
  certfp : Text

/-- Who the user is on the network: the server it is on, and the UID it was given there. Neither
changes while the user is there, whatever its nick. -/
structure Identity where
  sid : Text
  uid : Text
  sid_shape : SidShape sid
  uid_shape : UidShape uid
  own : uid.take sidLen = sid

/-! ## 2. What is sent -/

/-- `umodes_to_string(cl, out, outsz)`. -/
def umodesToString (outsz : Nat) (umodes : Umode → Bool) (isService : Bool) : Text :=
  let out := umodeMap.foldl (fun out m =>
    if out.length + 2 < outsz ∧ umodes m = true then out ++ [m.letter] else out) ['+']
  if isService = true ∧ out.length + 2 < outsz then out ++ ['S'] else out

def readUmode (r : (Umode → Bool) × Bool) (c : Char) : (Umode → Bool) × Bool :=
  if c = 'S' then (r.1, true) else (fun m => r.1 m || m.letter == c, r.2)

/-- `umodes_from_string`: the modes, and whether there was an `S` among them. -/
def umodesFromString (s : Text) : (Umode → Bool) × Bool := s.foldl readUmode (fun _ => false, false)

/-- `snprintf(hop, sizeof hop, "%d", ..)`, a buffer of eight. -/
def hopText (hop : Int) : Text := clip 8 (intDecimal hop)

def identText (identConfirmed : Bool) : Text := if identConfirmed then ['1'] else ['0']

/-- An account travels under a name, and its absence as a star. -/
def accountText (account : Text) : Text := if account ≠ [] then account else ['*']

variable (id : Identity)

def uidParams (u : UserState) (hop : Int) : List Text :=
  [u.nick, hopText hop, clip 24 (intDecimal u.nickTs), umodesToString 40 u.umodes u.isService, u.user,
    u.host, u.realhost, u.ip, id.uid, accountText u.account, identText u.identConfirmed]

/-- `send_uid_line`; `hop` is how far away the user is from the other end of the link. -/
def sendUidLine (u : UserState) (hop : Int) : List Text :=
  (ircBuild 1100 [] (some id.sid) "UID".toList (uidParams id u hop) (some u.realname)).text ::
    ((if u.certfp ≠ [] then
        [(ircBuild 1100 [] (some id.uid) "CERTFP".toList [u.certfp] none).text] else []) ++
      if u.isAway then [(ircBuild 1100 [] (some id.uid) "AWAY".toList [] (some u.away)).text] else [])

/-- `netsync_user_nick`; the caller has set the nick and its time. -/
def netsyncUserNick (u : UserState) : Text :=
  (ircBuild 300 [] (some id.uid) "NICK".toList [u.nick, clip 24 (intDecimal u.nickTs)] none).text

def netsyncUserModes (u : UserState) : Text :=
  (ircBuild 200 [] (some id.uid) "UMODE".toList [umodesToString 40 u.umodes u.isService] none).text

def netsyncUserAway (u : UserState) : Text :=
  (ircBuild 500 [] (some id.uid) "AWAY".toList [] (some (if u.isAway then u.away else []))).text

def netsyncUserChghost (u : UserState) : Text :=
  (ircBuild 400 [] (some id.sid) "CHGHOST".toList [id.uid, u.user, u.host, identText u.identConfirmed]
    none).text

def netsyncUserSetname (u : UserState) : Text :=
  (ircBuild 500 [] (some id.uid) "SETNAME".toList [] (some u.realname)).text

def netsyncUserAccount (u : UserState) : Text :=
  (ircBuild 300 [] (some id.sid) "ACCOUNT".toList [id.uid, accountText u.account] none).text

/-! ## 3. What is made of it

A handler gives the copy it leaves and the lines it sends on to the other links.  The copy is
`none` where the server does not know the user; a line about another user changes nothing here. -/

/-- A handler that works for a user it finds as the source of the line (`src_user`). -/
def withSource (s : Option UserState) (msg : IrcMessage)
    (act : UserState → UserState × List Text) : Option UserState × List Text :=
  match s with
  | some u => if msg.pfx = some id.uid then (some (act u).1, (act u).2) else (s, [])
  | none => (s, [])

/-- A handler for a line of the user's server that names the user first. -/
def withTarget (s : Option UserState) (msg : IrcMessage)
    (act : UserState → UserState × List Text) : Option UserState × List Text :=
  match s with
  | some u =>
    if msg.pfx = some id.sid ∧ msg.params.head? = some id.uid then (some (act u).1, (act u).2)
    else (s, [])
  | none => (s, [])

/-- `handle_uid`, where no nick collides. -/
def handleUid (s : Option UserState) (msg : IrcMessage) : Option UserState × List Text :=
  match s, msg.params with
  | none, nick :: hop :: ts :: modes :: user :: host :: realhost :: ip :: uid :: account ::
      ident :: realname :: _ =>
    if msg.pfx = some id.sid ∧ ircValidNick nick (nickLen - 1) = true ∧ uid = id.uid then
      (some
        { nick := clip nickLen nick
          nickTs := atol ts
          user := clip 64 user
          host := clip 256 host
          realhost := clip 256 realhost
          ip := clip 64 ip
          realname := clip 512 realname
          account := if account ≠ ['*'] then clip 64 account else []
          umodes := (umodesFromString modes).1
          isService := (umodesFromString modes).2
          identConfirmed := ident.head? == some '1'
          isAway := false
          away := []
          certfp := [] },
        [(ircBuild 1100 [] (some id.sid) "UID".toList [nick, hopText (atoi hop + 1), ts, modes, user,
          host, realhost, ip, uid, account, ident] (some realname)).text])
    else (s, [])
  | _, _ => (s, [])

/-- `handle_nick`, where no nick collides. -/
def handleNick (s : Option UserState) (msg : IrcMessage) : Option UserState × List Text :=
  withSource id s msg fun u =>
    match msg.params with
    | newnick :: ts :: _ =>
      if ircValidNick newnick (nickLen - 1) = true then
        ({ u with nick := clip nickLen newnick, nickTs := atol ts },
          [(ircBuild 300 [] (some id.uid) "NICK".toList [newnick, ts] none).text])
      else (u, [])
    | _ => (u, [])

def setR (umodes : Umode → Bool) (on : Bool) : Umode → Bool := fun m => if m = .r then on else umodes m

/-- `handle_umode`: whoever has an account stays identified. -/
def handleUmode (s : Option UserState) (msg : IrcMessage) : Option UserState × List Text :=
  withSource id s msg fun u =>
    match msg.params with
    | modes :: _ =>
      let umodes := (umodesFromString modes).1
      ({ u with umodes := if u.account ≠ [] then setR umodes true else umodes },
        [(ircBuild 200 [] (some id.uid) "UMODE".toList [modes] none).text])
    | [] => (u, [])

def handleAway (s : Option UserState) (msg : IrcMessage) : Option UserState × List Text :=
  withSource id s msg fun u =>
    let text := msg.params.getLast?.getD []
    let u' := { u with isAway := !text.isEmpty, away := clip 400 (text.take 399) }
    (u', [(ircBuild 500 [] (some id.uid) "AWAY".toList [] (some (if u'.isAway then u'.away else []))).text])

def handleChghost (s : Option UserState) (msg : IrcMessage) : Option UserState × List Text :=
  withTarget id s msg fun u =>
    match msg.params with
    | _ :: user :: host :: rest =>
      -- older peers send no ident flag
      let u' := { u with
        user := clip 64 user
        host := clip 256 host
        identConfirmed := rest.head?.elim u.identConfirmed fun f => f.head? == some '1' }
      (u', [(ircBuild 400 [] (some id.sid) "CHGHOST".toList [id.uid, u'.user, u'.host,
        identText u'.identConfirmed] none).text])
    | _ => (u, [])

def handleSetname (s : Option UserState) (msg : IrcMessage) : Option UserState × List Text :=
  withSource id s msg fun u =>
    match msg.params.getLast? with
    | some text =>
      let u' := { u with realname := clip 512 text }
      (u', [(ircBuild 500 [] (some id.uid) "SETNAME".toList [] (some u'.realname)).text])
    | none => (u, [])

def handleAccount (s : Option UserState) (msg : IrcMessage) : Option UserState × List Text :=
  withTarget id s msg fun u =>
    match msg.params with
    | _ :: acct :: _ =>
      let u' := if acct = ['*'] then { u with account := [], umodes := setR u.umodes false }
        else { u with account := clip 64 acct, umodes := setR u.umodes true }
      (u', [(ircBuild 300 [] (some id.sid) "ACCOUNT".toList [id.uid, acct] none).text])
    | _ => (u, [])

def handleCertfp (s : Option UserState) (msg : IrcMessage) : Option UserState × List Text :=
  withSource id s msg fun u =>
    match msg.params with
    | certfp :: _ =>
      if certfp.length < 72 then
        ({ u with certfp := clip 72 certfp },
          [(ircBuild 200 [] (some id.uid) "CERTFP".toList [clip 72 certfp] none).text])
      else (u, [])
    | [] => (u, [])

/-- `netsync_handle`, the lines about a user; anything else leaves the user alone. -/
def netsyncHandle (s : Option UserState) (line : Text) : Option UserState × List Text :=
  match ircParseLine line with
  | none => (s, [])
  | some msg =>
    if msg.command = "UID".toList then handleUid id s msg
    else if msg.command = "NICK".toList then handleNick id s msg
    else if msg.command = "UMODE".toList then handleUmode id s msg
    else if msg.command = "AWAY".toList then handleAway id s msg
    else if msg.command = "CHGHOST".toList then handleChghost id s msg
    else if msg.command = "SETNAME".toList then handleSetname id s msg
    else if msg.command = "ACCOUNT".toList then handleAccount id s msg
    else if msg.command = "CERTFP".toList then handleCertfp id s msg
    else (s, [])

/-! ## 4. Modes as letters -/

theorem mem_umodeMap (m : Umode) : m ∈ umodeMap := by
  cases m <;> decide

theorem letter_inj {m n : Umode} (h : m.letter = n.letter) : m = n := by
  cases m <;> cases n <;> first | rfl | exact absurd h (by decide)

theorem letter_ne_service (m : Umode) : m.letter ≠ 'S' := by
  cases m <;> decide

theorem letter_plain (m : Umode) :
    m.letter ≠ '+' ∧ m.letter ≠ ' ' ∧ m.letter ≠ '\r' ∧ m.letter ≠ '\n' := by
  cases m <;> decide

/-- The letters of the modes that are set, and the mark of a service. -/
def modeLetters (umodes : Umode → Bool) (isService : Bool) : Text :=
  (umodeMap.filter umodes).map Umode.letter ++ if isService then ['S'] else []

theorem foldl_letters (outsz : Nat) (umodes : Umode → Bool) : ∀ (l : List Umode) (out : Text),
    out.length + l.length + 1 < outsz →
    l.foldl (fun out m =>
      if out.length + 2 < outsz ∧ umodes m = true then out ++ [m.letter] else out) out =
      out ++ (l.filter umodes).map Umode.letter
  | [], out, _ => by simp
  | m :: l, out, h => by
    simp only [List.length_cons] at h
    rw [List.foldl_cons]
    by_cases hm : umodes m = true
    · rw [if_pos ⟨by omega, hm⟩, foldl_letters outsz umodes l _ (by simp; omega),
        List.filter_cons_of_pos hm]
      simp
    · rw [if_neg (fun hc => hm hc.2), foldl_letters outsz umodes l _ (by omega),
        List.filter_cons_of_neg hm]

theorem length_modeLetters (umodes : Umode → Bool) (isService : Bool) :
    (modeLetters umodes isService).length ≤ 20 := by
  have h := List.length_filter_le umodes umodeMap
  have hmap : umodeMap.length = 19 := rfl
  simp only [modeLetters, List.length_append, List.length_map]
  split <;> simp <;> omega

theorem umodesToString_eq (umodes : Umode → Bool) (isService : Bool) :
    umodesToString 40 umodes isService = '+' :: modeLetters umodes isService := by
  have h := List.length_filter_le umodes umodeMap
  have hmap : umodeMap.length = 19 := rfl
  have hfold := foldl_letters 40 umodes umodeMap ['+'] (by simp [hmap])
  rw [umodesToString, hfold]
  cases isService
  · simp [modeLetters]
  · have hlen : (['+'] ++ (umodeMap.filter umodes).map Umode.letter).length + 2 < 40 := by
      simp
      omega
    simp only [true_and, if_pos hlen]
    simp [modeLetters]

theorem foldl_readUmode : ∀ (s : Text) (r : (Umode → Bool) × Bool),
    s.foldl readUmode r = (fun m => r.1 m || decide (m.letter ∈ s), r.2 || decide ('S' ∈ s))
  | [], r => by simp
  | c :: s, r => by
    rw [List.foldl_cons, foldl_readUmode s, readUmode]
    by_cases hc : c = 'S'
    · have hne : ∀ m : Umode, ¬ m.letter = c := fun m => hc ▸ letter_ne_service m
      simp [hc, letter_ne_service]
    · simp [hc, Ne.symm hc, Bool.or_assoc, Bool.beq_eq_decide_eq]

/-- **The modes come back as they were.** -/
theorem umodesFromString_toString (umodes : Umode → Bool) (isService : Bool) :
    umodesFromString (umodesToString 40 umodes isService) = (umodes, isService) := by
  rw [umodesToString_eq, umodesFromString, foldl_readUmode]
  refine Prod.ext (funext fun m => ?_) ?_
  · have hiff : m.letter ∈ '+' :: modeLetters umodes isService ↔ umodes m = true := by
      have hp : ¬ m.letter = '+' := (letter_plain m).1
      have hs : m.letter ∉ (if isService then ['S'] else [] : Text) := by
        split <;> simp [letter_ne_service]
      simp only [modeLetters, List.mem_cons, hp, false_or, List.mem_append, hs, or_false,
        List.mem_map, List.mem_filter]
      constructor
      · rintro ⟨n, ⟨-, hn⟩, e⟩
        rwa [← letter_inj e]
      · exact fun hm => ⟨m, ⟨mem_umodeMap m, hm⟩, rfl⟩
    simp [hiff]
  · have hiff : 'S' ∈ '+' :: modeLetters umodes isService ↔ isService = true := by
      simp [modeLetters, letter_ne_service]
    simp [hiff]

theorem plain_umodesToString (umodes : Umode → Bool) (isService : Bool) :
    Plain (umodesToString 40 umodes isService) := by
  have hlen := length_modeLetters umodes isService
  have hno : ∀ c, (∀ m : Umode, m.letter ≠ c) → c ≠ '+' → c ≠ 'S' →
      c ∉ '+' :: modeLetters umodes isService := by
    intro c hm hp hs hc
    rcases List.mem_cons.mp hc with hc | hc
    · exact hp hc
    · rcases List.mem_append.mp hc with hc | hc
      · obtain ⟨m, -, rfl⟩ := List.mem_map.mp hc
        exact hm m rfl
      · split at hc
        · exact hs (List.mem_singleton.mp hc)
        · exact absurd hc List.not_mem_nil
  rw [umodesToString_eq]
  refine ⟨by simp, by simp, ?_, ?_, ?_, by simp only [List.length_cons]; omega⟩
  · exact hno _ (fun m => (letter_plain m).2.1) (by decide) (by decide)
  · exact hno _ (fun m => (letter_plain m).2.2.1) (by decide) (by decide)
  · exact hno _ (fun m => (letter_plain m).2.2.2) (by decide) (by decide)

/-! ## 5. What a line says

Between the line and the handlers stands what the line says. An update can be carried or not, and
this depends on the texts in it. -/

/-- What a line about a user says. -/
inductive Update
  | uid (hop : Int) (u : UserState)
  | nick (nick : Text) (ts : Int)
  | umode (umodes : Umode → Bool) (isService : Bool)
  | away (isAway : Bool) (text : Text)
  | chghost (user host : Text) (identConfirmed : Bool)
  | setname (realname : Text)
  | account (account : Text) (identified : Bool)
  | certfp (certfp : Text)

/-- A user as a UID line introduces it: the away text and the fingerprint come behind. -/
def UserState.introduced (u : UserState) : UserState :=
  { u with isAway := false, away := [], certfp := [] }

/-- What an update makes of a copy. -/
def Update.apply : Update → Option UserState → Option UserState
  | uid _ u, none => some u.introduced
  | uid _ _, some v => some v
  | nick n ts, s => s.map fun u => { u with nick := n, nickTs := ts }
  | umode ms _, s => s.map fun u => { u with umodes := if u.account ≠ [] then setR ms true else ms }
  | away b t, s => s.map fun u => { u with isAway := b, away := t }
  | chghost us h f, s => s.map fun u => { u with user := us, host := h, identConfirmed := f }
  | setname t, s => s.map fun u => { u with realname := t }
  | account a r, s => s.map fun u => { u with account := a, umodes := setR u.umodes r }
  | certfp f, s => s.map fun u => { u with certfp := f }

/-- The line that says it. -/
def Update.line (id : Identity) : Update → Text
  | uid hop u =>
    (ircBuild 1100 [] (some id.sid) "UID".toList (uidParams id u hop) (some u.realname)).text
  | nick n ts =>
    (ircBuild 300 [] (some id.uid) "NICK".toList [n, clip 24 (intDecimal ts)] none).text
  | umode ms svc =>
    (ircBuild 200 [] (some id.uid) "UMODE".toList [umodesToString 40 ms svc] none).text
  | away b t =>
    (ircBuild 500 [] (some id.uid) "AWAY".toList [] (some (if b then t else []))).text
  | chghost us h f =>
    (ircBuild 400 [] (some id.sid) "CHGHOST".toList [id.uid, us, h, identText f] none).text
  | setname t => (ircBuild 500 [] (some id.uid) "SETNAME".toList [] (some t)).text
  | account a _ => (ircBuild 300 [] (some id.sid) "ACCOUNT".toList [id.uid, accountText a] none).text
  | certfp f => (ircBuild 200 [] (some id.uid) "CERTFP".toList [f] none).text

/-- What a server that makes this of its copy tells the servers behind it. -/
def Update.passed : Update → Option UserState → List Update
  | uid hop u, none => [uid (atoi (hopText hop) + 1) u]
  | uid _ _, some _ => []
  | _, none => []
  | a, some _ => [a]

/-- Text out of a line: it holds no line break. -/
def Unbroken (t : Text) : Prop := '\r' ∉ t ∧ '\n' ∉ t

instance (t : Text) : Decidable (Unbroken t) := inferInstanceAs (Decidable (_ ∧ _))

/-- **What the server a user is on keeps true of it**: the sizes of the fields, a nick that has
been checked, no line breaks, the mode of those who have an account, and no away text left
behind by one who is here. -/
structure UserState.Ok (u : UserState) : Prop where
  nick : ircValidNick u.nick (nickLen - 1) = true
  nickTs : 0 ≤ u.nickTs ∧ u.nickTs ≤ longMax
  user : u.user.length < 64
  host : u.host.length < 256
  realhost : u.realhost.length < 256
  ip : u.ip.length < 64
  realname : u.realname.length < 512 ∧ Unbroken u.realname
  account : u.account.length < 64
  identified : u.account ≠ [] → u.umodes .r = true
  away : u.away.length < 400 ∧ Unbroken u.away
  here : u.isAway = false → u.away = []
  certfp : u.certfp.length < 72

/-- An account that a star cannot be taken for, nor a word boundary cut. -/
def Nameable (account : Text) : Prop := account ≠ [] → Plain account ∧ account ≠ ['*']

/-- **An update that its line carries whole.** Middle parameters must be words, and the line must
not be cut. -/
def Update.Carried (id : Identity) : Update → Prop
  | uid hop u => u.Ok ∧ (Plain u.user ∧ Plain u.host ∧ Plain u.realhost ∧ Plain u.ip) ∧
      Nameable u.account ∧
      (ircLineTrailing id.sid "UID".toList (uidParams id u hop) u.realname).length < 1100
  | nick n ts => ircValidNick n (nickLen - 1) = true ∧ 0 ≤ ts ∧ ts ≤ longMax
  | umode _ _ => True
  | away b t => (b = true ↔ t ≠ []) ∧ t.length < 400 ∧ Unbroken t
  | chghost us h _ => (Plain us ∧ us.length < 64) ∧ Plain h ∧ h.length < 256
  | setname t => t.length ≤ 390 ∧ Unbroken t
  | account a r => (r = true ↔ a ≠ []) ∧ Nameable a ∧ a.length < 64
  | certfp f => Plain f ∧ f.length < 72

/-! ## 6. Built and read -/

theorem plain_of_valid_nick {n : Text} (h : ircValidNick n (nickLen - 1) = true) : Plain n := by
  have hlen := valid_nick_length h
  have hchars : n ≠ [] ∧ ∀ c ∈ n, (isAlnum c || isNickSpecial c || c == '-') = true := by
    unfold ircValidNick at h
    split at h
    · exact absurd h (by simp)
    · simp only [Bool.and_eq_true, List.all_eq_true] at h
      refine ⟨by simp, fun c hc => ?_⟩
      rcases List.mem_cons.mp hc with rfl | hc
      · rcases Bool.or_eq_true_iff.mp h.1.2 with h | h
        · simp [isAlnum, h]
        · simp [h]
      · exact h.2 c hc
  have hno : ∀ c, (isAlnum c || isNickSpecial c || c == '-') = false → c ∉ n := by
    intro c hc hm
    rw [hchars.2 c hm] at hc
    exact absurd hc (by simp)
  refine ⟨hchars.1, ?_, hno ' ' (by decide), hno '\r' (by decide), hno '\n' (by decide),
    by simp only [nickLen] at hlen; omega⟩
  rintro c hc rfl
  exact hno ':' (by decide) (List.mem_of_mem_head? hc)

theorem plain_hopText (hop : Int) : Plain (hopText hop) := by
  have hlen := clip_length_le 8 (intDecimal hop)
  have hno : ∀ c, c.isDigit = false → c ≠ '-' → c ∉ hopText hop := by
    intro c hc hm hin
    rcases mem_intDecimal (mem_of_mem_clip hin) with h | h
    · exact hm h
    · rw [hc] at h
      exact absurd h (by simp)
  obtain ⟨c, cs, hcs⟩ := List.exists_cons_of_ne_nil (intDecimal_ne_nil hop)
  refine ⟨by simp [hopText, clip, hcs], ?_, hno ' ' (by decide) (by decide),
    hno '\r' (by decide) (by decide), hno '\n' (by decide) (by decide),
    by rw [hopText]; omega⟩
  rintro c hc rfl
  exact hno ':' (by decide) (by decide) (List.mem_of_mem_head? hc)

theorem stamp_text {ts : Int} (h0 : 0 ≤ ts) (h : ts ≤ longMax) :
    clip 24 (intDecimal ts) = intDecimal ts ∧ (intDecimal ts).length ≤ 19 := by
  have hlen := intDecimal_length_le (z := ts) (k := 19) (by decide) h0
    (by simp only [longMax] at h; omega)
  exact ⟨clip_of_fits (by omega), hlen⟩

theorem atol_stamp {ts : Int} (h0 : 0 ≤ ts) (h : ts ≤ longMax) : atol (intDecimal ts) = ts := by
  have hread := strtol_intDecimal (z := ts) (r := []) (by omega) h (by simp)
  rw [List.append_nil] at hread
  rw [atol, hread]
  rfl

theorem plain_identText (f : Bool) : Plain (identText f) := by
  cases f <;> decide

theorem plain_accountText {a : Text} (h : Nameable a) : Plain (accountText a) := by
  unfold accountText
  split
  · rename_i ha
    exact (h ha).1
  · decide

theorem accountText_read {a : Text} (h : Nameable a) (hlen : a.length < 64) :
    (if accountText a ≠ ['*'] then clip 64 (accountText a) else []) = a := by
  by_cases ha : a = []
  · rw [ha]
    rfl
  · rw [accountText, if_pos ha, if_pos (h ha).2, clip_of_fits hlen]

section Built

variable {outsz : Nat} {pfx command : Text} {params : List Text} (hp : Source pfx)
  (hc : Command command) (hps : ∀ p ∈ params, Plain p)

include hp hc hps

theorem ircLine_length : (ircLine pfx command params).length =
    pfx.length + command.length + 2 + (params.map fun p => p.length + 1).sum := by
  have hsum : (params.flatMap fun w => ' ' :: w).length =
      (params.map fun p => p.length + 1).sum := List.length_flatMap
  rw [ircLine, hp.escape, hc.escape, map_mid_of_plain hps, joinSep_eq_flatMap]
  simp only [List.length_append, List.length_cons, hsum]
  omega

theorem ircLineTrailing_length {t : Text} (ht : Unbroken t) (hlen : t.length < 1024) :
    (ircLineTrailing pfx command params t).length =
      pfx.length + command.length + 4 + (params.map fun p => p.length + 1).sum + t.length := by
  rw [ircLineTrailing, ircEscape_eq_self ht.1 ht.2 hlen, List.length_append,
    ircLine_length hp hc hps]
  simp only [List.length_cons]
  omega

theorem parse_built (hl : params.length ≤ ircMaxParams)
    (hfit : pfx.length + command.length + 2 + (params.map fun p => p.length + 1).sum < outsz) :
    ircParseLine (ircBuild outsz [] (some pfx) command params none).text =
      some { tags := [], pfx := some pfx, command := command, params := params } := by
  have hesc : ircEscape 1024 command ≠ [] := by
    rw [hc.escape]
    exact hc.ne_nil
  rw [← ircLine_length hp hc hps] at hfit
  rw [ircBuild_of_fits hesc hfit, ircParseLine_ircLine hp hc hl, map_mid_of_plain hps]

theorem parse_built_trailing {t : Text} (hl : params.length < ircMaxParams) (ht : Unbroken t)
    (hlen : t.length < 1024) (hfit : (ircLineTrailing pfx command params t).length < outsz) :
    ircParseLine (ircBuild outsz [] (some pfx) command params (some t)).text =
      some { tags := [], pfx := some pfx, command := command, params := params ++ [t] } := by
  have hesc : ircEscape 1024 command ≠ [] := by
    rw [hc.escape]
    exact hc.ne_nil
  rw [ircBuild_trailing_of_fits hesc hfit, ircParseLine_ircLineTrailing hp hc hl,
    map_mid_of_plain hps, ircEscape_eq_self ht.1 ht.2 hlen]

end Built

/-- An update as it is read. -/
def Update.read (id : Identity) : Update → IrcMessage
  | uid hop u => ⟨[], some id.sid, "UID".toList, uidParams id u hop ++ [u.realname]⟩
  | nick n ts => ⟨[], some id.uid, "NICK".toList, [n, clip 24 (intDecimal ts)]⟩
  | umode ms svc => ⟨[], some id.uid, "UMODE".toList, [umodesToString 40 ms svc]⟩
  | away b t => ⟨[], some id.uid, "AWAY".toList, [if b then t else []]⟩
  | chghost us h f => ⟨[], some id.sid, "CHGHOST".toList, [id.uid, us, h, identText f]⟩
  | setname t => ⟨[], some id.uid, "SETNAME".toList, [t]⟩
  | account a _ => ⟨[], some id.sid, "ACCOUNT".toList, [id.uid, accountText a]⟩
  | certfp f => ⟨[], some id.uid, "CERTFP".toList, [f]⟩

variable {id : Identity}

theorem plain_uidParams {u : UserState} {hop : Int} (h : (Update.uid hop u).Carried id) :
    ∀ p ∈ uidParams id u hop, Plain p := by
  obtain ⟨hok, ⟨huser, hhost, hreal, hip⟩, hacct, -⟩ := h
  obtain ⟨h0, hle⟩ := hok.nickTs
  intro p hp
  simp only [uidParams, List.mem_cons, List.not_mem_nil, or_false] at hp
  rcases hp with rfl | rfl | rfl | rfl | rfl | rfl | rfl | rfl | rfl | rfl | rfl
  · exact plain_of_valid_nick hok.nick
  · exact plain_hopText hop
  · rw [(stamp_text h0 hle).1]
    exact plain_intDecimal h0 hle
  · exact plain_umodesToString _ _
  · exact huser
  · exact hhost
  · exact hreal
  · exact hip
  · exact id.uid_shape.plain
  · exact plain_accountText hacct
  · exact plain_identText _

/-- **What is carried is read.** -/
theorem Update.parse_line {a : Update} (h : a.Carried id) : ircParseLine (a.line id) = some (a.read id) := by
  have hsid := id.sid_shape.length
  have huid := id.uid_shape.length
  simp only [sidLen] at hsid
  simp only [uidLen] at huid
  cases a with
  | uid hop u =>
    obtain ⟨hlen, hreal⟩ := h.1.realname
    exact parse_built_trailing id.sid_shape.source (by decide) (plain_uidParams h)
      (by simp [uidParams, ircMaxParams]) hreal (by omega) h.2.2.2
  | nick n ts =>
    obtain ⟨hn, h0, hle⟩ := h
    obtain ⟨hstamp, hdigits⟩ := stamp_text h0 hle
    have hlen := valid_nick_length hn
    simp only [nickLen] at hlen
    have hps : ∀ p ∈ [n, clip 24 (intDecimal ts)], Plain p := by
      simp only [List.forall_mem_cons, hstamp]
      exact ⟨plain_of_valid_nick hn, plain_intDecimal h0 hle, by simp⟩
    refine parse_built id.uid_shape.source (by decide) hps (by simp [ircMaxParams]) ?_
    simp [hstamp, huid]
    omega
  | umode ms svc =>
    have hlen := length_modeLetters ms svc
    have hps : ∀ p ∈ [umodesToString 40 ms svc], Plain p := by
      simpa using plain_umodesToString ms svc
    refine parse_built id.uid_shape.source (by decide) hps (by simp [ircMaxParams]) ?_
    simp [umodesToString_eq, huid]
    omega
  | away b t =>
    obtain ⟨-, hlen, ht⟩ := h
    have htext : (if b then t else []).length < 400 ∧ Unbroken (if b then t else []) := by
      cases b
      · exact ⟨by simp, by simp [Unbroken]⟩
      · exact ⟨hlen, ht⟩
    refine parse_built_trailing id.uid_shape.source (by decide) (by simp) (by decide) htext.2
      (by omega) ?_
    rw [ircLineTrailing_length id.uid_shape.source (by decide) (by simp) htext.2 (by omega)]
    simp [huid]
    omega
  | chghost us h' f =>
    obtain ⟨⟨hus, huslen⟩, hh, hhlen⟩ := h
    have hf : (identText f).length = 1 := by cases f <;> rfl
    have hps : ∀ p ∈ [id.uid, us, h', identText f], Plain p := by
      simp only [List.forall_mem_cons]
      exact ⟨id.uid_shape.plain, hus, hh, plain_identText f, by simp⟩
    refine parse_built id.sid_shape.source (by decide) hps (by simp [ircMaxParams]) ?_
    simp [huid, hsid, hf]
    omega
  | setname t =>
    obtain ⟨hlen, ht⟩ := h
    refine parse_built_trailing id.uid_shape.source (by decide) (by simp) (by decide) ht
      (by omega) ?_
    rw [ircLineTrailing_length id.uid_shape.source (by decide) (by simp) ht (by omega)]
    simp [huid]
    omega
  | account a r =>
    obtain ⟨-, ha, hlen⟩ := h
    have htext : (accountText a).length < 64 := by
      unfold accountText
      split
      · exact hlen
      · decide
    have hps : ∀ p ∈ [id.uid, accountText a], Plain p := by
      simp only [List.forall_mem_cons]
      exact ⟨id.uid_shape.plain, plain_accountText ha, by simp⟩
    refine parse_built id.sid_shape.source (by decide) hps (by simp [ircMaxParams]) ?_
    simp [huid, hsid]
    omega
  | certfp f =>
    obtain ⟨hf, hlen⟩ := h
    have hps : ∀ p ∈ [f], Plain p := by simpa using hf
    refine parse_built id.uid_shape.source (by decide) hps (by simp [ircMaxParams]) ?_
    simp [huid]
    omega

/-! ## 7. The handlers do what the update says -/

/-- What a handler leaves and sends on, when it makes of the copy what the update says. -/
def Update.heard (id : Identity) (a : Update) (s : Option UserState) : Option UserState × List Text :=
  (a.apply s, (a.passed s).map (Update.line id))

theorem identText_read (f : Bool) : ((identText f).head? == some '1') = f := by
  cases f <;> rfl

theorem handleUid_read {hop : Int} {u : UserState} (h : (Update.uid hop u).Carried id)
    (s : Option UserState) :
    handleUid id s ((Update.uid hop u).read id) = (Update.uid hop u).heard id s := by
  obtain ⟨hok, -, hacct, -⟩ := h
  obtain ⟨h0, hle⟩ := hok.nickTs
  have hnick := valid_nick_length hok.nick
  cases s with
  | some v => rfl
  | none =>
    have hmodes := umodesFromString_toString u.umodes u.isService
    simp only [handleUid, Update.read, uidParams, List.cons_append, List.nil_append, hok.nick,
      and_self, if_true, Update.heard, Update.apply, Update.passed, List.map_cons, List.map_nil,
      Update.line, (stamp_text h0 hle).1, atol_stamp h0 hle, hmodes, identText_read,
      accountText_read hacct hok.account, clip_of_fits hok.user, clip_of_fits hok.host,
      clip_of_fits hok.realhost, clip_of_fits hok.ip, clip_of_fits hok.realname.1]
    rw [clip_of_fits (by simp only [nickLen] at hnick ⊢; omega)]
    rfl

theorem handleNick_read {n : Text} {ts : Int} (h : (Update.nick n ts).Carried id)
    (s : Option UserState) :
    handleNick id s ((Update.nick n ts).read id) = (Update.nick n ts).heard id s := by
  obtain ⟨hn, h0, hle⟩ := h
  have hlen := valid_nick_length hn
  have hclip : clip nickLen n = n := clip_of_fits (by simp only [nickLen] at hlen ⊢; omega)
  cases s with
  | none => rfl
  | some u =>
    simp only [handleNick, withSource, Update.read, if_true, hn, hclip, (stamp_text h0 hle).1,
      atol_stamp h0 hle]
    simp only [Update.heard, Update.apply, Update.passed, Option.map_some, List.map_cons, List.map_nil,
      Update.line, (stamp_text h0 hle).1]

theorem handleUmode_read (ms : Umode → Bool) (svc : Bool) (s : Option UserState) :
    handleUmode id s ((Update.umode ms svc).read id) = (Update.umode ms svc).heard id s := by
  cases s with
  | none => rfl
  | some u =>
    simp only [handleUmode, withSource, Update.read, if_true, umodesFromString_toString]
    rfl

theorem handleAway_read {b : Bool} {text : Text} (h : (Update.away b text).Carried id)
    (s : Option UserState) :
    handleAway id s ((Update.away b text).read id) = (Update.away b text).heard id s := by
  obtain ⟨hb, hlen, -⟩ := h
  have hset : (!text.isEmpty) = b := by
    cases text <;> simpa using hb
  have htext : (if b then text else []) = text := by
    cases b
    · have : text = [] := by
        by_contra hne
        exact absurd (hb.mpr hne) (by simp)
      simp [this]
    · rfl
  have hclip : clip 400 (text.take 399) = text := by
    rw [List.take_of_length_le (by omega), clip_of_fits hlen]
  cases s with
  | none => rfl
  | some u =>
    have hread : (Update.away b text).read id = ⟨[], some id.uid, "AWAY".toList, [text]⟩ := by
      rw [Update.read, htext]
    rw [hread]
    simp only [handleAway, withSource, if_true, List.getLast?_singleton, Option.getD_some, hset,
      hclip]
    rfl

theorem handleChghost_read {us h : Text} {f : Bool} (hc : (Update.chghost us h f).Carried id)
    (s : Option UserState) :
    handleChghost id s ((Update.chghost us h f).read id) = (Update.chghost us h f).heard id s := by
  obtain ⟨⟨-, hus⟩, -, hh⟩ := hc
  cases s with
  | none => rfl
  | some u =>
    simp only [handleChghost, withTarget, Update.read, List.head?_cons, and_self, if_true,
      Option.elim_some, identText_read, clip_of_fits hus, clip_of_fits hh]
    rfl

theorem handleSetname_read {text : Text} (h : (Update.setname text).Carried id)
    (s : Option UserState) :
    handleSetname id s ((Update.setname text).read id) = (Update.setname text).heard id s := by
  have hclip : clip 512 text = text := clip_of_fits (by have := h.1; omega)
  cases s with
  | none => rfl
  | some u =>
    simp only [handleSetname, withSource, Update.read, if_true, List.getLast?_singleton, hclip]
    rfl

theorem handleAccount_read {a : Text} {r : Bool} (h : (Update.account a r).Carried id)
    (s : Option UserState) :
    handleAccount id s ((Update.account a r).read id) = (Update.account a r).heard id s := by
  obtain ⟨hr, hname, hlen⟩ := h
  cases s with
  | none => rfl
  | some u =>
    simp only [handleAccount, withTarget, Update.read, List.head?_cons, and_self, if_true]
    by_cases ha : a = []
    · have hoff : r = false := by simpa [ha] using hr
      rw [ha, hoff]
      rfl
    · have hon : r = true := hr.mpr ha
      have hstar : ¬ accountText a = ['*'] := by
        rw [accountText, if_pos ha]
        exact (hname ha).2
      have htext : accountText a = a := if_pos ha
      rw [if_neg hstar, htext, clip_of_fits hlen, hon]
      simp [Update.heard, Update.apply, Update.passed, Update.line, htext]

theorem handleCertfp_read {f : Text} (h : (Update.certfp f).Carried id) (s : Option UserState) :
    handleCertfp id s ((Update.certfp f).read id) = (Update.certfp f).heard id s := by
  cases s with
  | none => rfl
  | some u =>
    simp only [handleCertfp, withSource, Update.read, if_true, h.2, clip_of_fits h.2]
    rfl

/-- **What is carried is done, and sent on.** So an update arrives everywhere if it arrives at the
next server. -/
theorem netsyncHandle_line {a : Update} (h : a.Carried id) (s : Option UserState) :
    netsyncHandle id s (a.line id) = a.heard id s := by
  rw [netsyncHandle, Update.parse_line h]
  cases a with
  | uid hop u => exact handleUid_read h s
  | nick n ts => exact handleNick_read h s
  | umode ms svc => exact handleUmode_read ms svc s
  | away b t => exact handleAway_read h s
  | chghost us h' f => exact handleChghost_read h s
  | setname t => exact handleSetname_read h s
  | account a r => exact handleAccount_read h s
  | certfp f => exact handleCertfp_read h s

end UserSync

end SekurIRCd
