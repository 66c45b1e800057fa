/-
# The address behind a reverse proxy

A WebSocket client behind trusted proxies is known by the address that they put into
`X-Forwarded-For`, and by `X-Forwarded-Proto` for whether it came over TLS at every hop.  The
client may send both headers itself; each proxy appends what it saw.  `ws_forwarded_client`
therefore walks from the right and takes the first address that is not a trusted proxy.

Two things take the right end of a value away, and with it what the proxies wrote.  Both values are
copied into fixed buffers before the walk, which cuts the long ones.  And the head of the request is
copied as it has come in and then read as a C string, so that a NUL in it hides whatever follows.
The address is right for every value of up to 255 bytes that no NUL stands before the end of, and
the scheme for every value of up to 66 whose own part has none; for no greater length is it always
right, nor with a NUL (`forwarded_exact`).

`irc_ip_mask_match` is a parameter: nothing here depends on what it matches.
-/
import SekurIRCd.Lib.CString
import Mathlib.Data.List.DropRight

namespace SekurIRCd

open CLib

/-! ## 1. The request

The head of the request is a text with CRLFs in it, and a header is looked for by name, line by
line. -/

def isBlank (c : Char) : Bool := c == ' ' || c == '\t'

/-- The lines of a request head, between its CRLFs. -/
def crlfLines : Text → List Text
  | [] => [[]]
  | '\r' :: '\n' :: s => [] :: crlfLines s
  | c :: s =>
    match crlfLines s with
    | [] => [[c]]
    | l :: ls => (c :: l) :: ls

def trimBlanks (s : Text) : Text := (s.dropWhile isBlank).rdropWhile isBlank

/-- The value of a header line, if it is one of the header `name`. -/
def headerOf (name line : Text) : Option Text :=
  if name.length < line.length ∧ caseEq (line.take name.length) name = true ∧
      (line.drop name.length).head? = some ':' then
    some (trimBlanks (line.drop (name.length + 1)))
  else none

/-- `header_value`, into a buffer of `outsz` bytes. -/
def headerValue (req name : Text) (outsz : Nat) : Option Text :=
  ((crlfLines req).findSome? (headerOf name)).map (clip outsz)

/-- The tokens of `strtok_r` with several separators. -/
def strtokAny (seps : List Char) (s : Text) : List Text :=
  (s.splitOnP (· ∈ seps)).filter (· ≠ [])

/-- `ws_request_t`. -/
structure WsRequest where
  key : Text
  origin : Text
  textProto : Bool
  https : Bool
  forwarded : Text
deriving DecidableEq, Repr

/-- `ws_parse_request`; `none` is its `-1`. -/
def wsParseRequest (req : Text) : Option WsRequest :=
  if "GET ".toList.isPrefixOf req = false then none
  else match headerValue req "Upgrade".toList 32, headerValue req "Sec-WebSocket-Key".toList 64 with
  | some upgrade, some (k :: key) =>
    if caseEq upgrade "websocket".toList then
      let sub := (headerValue req "Sec-WebSocket-Protocol".toList 128).getD []
      let proto := (headerValue req "X-Forwarded-Proto".toList 64).getD []
      some
        { key := k :: key
          origin := (headerValue req "Origin".toList 256).getD []
          textProto := (strtokAny [',', ' ', '\t'] sub).any (caseEq · "text.ircv3.net".toList)
          https := decide (proto ≠ []) &&
            (strtokAny [',', ' ', '\t'] proto).all (caseEq · "https".toList)
          forwarded := ((headerValue req "X-Forwarded-For".toList 256).or
            (headerValue req "X-Real-IP".toList 256)).getD [] }
    else none
  | _, _ => none

/-! ## 2. The walk

The list is taken apart at its commas and walked from its end. An entry is copied into a small
buffer before it is compared. -/

section Walk

variable (ipMaskMatch : Text → Text → Bool) (globs : List Text)

/-- An entry of the list without the blanks around it. -/
def listEntry (piece : Text) : Text := (piece.dropWhile isBlank).takeWhile fun c => !isBlank c

/-- The walk of `ws_forwarded_client` over the pieces between commas, from the right. -/
def forwardedWalk : List Text → Text
  | [] => []
  | [piece] => listEntry piece
  | piece :: rest =>
    if globs.any (ipMaskMatch · (listEntry piece)) then forwardedWalk rest else listEntry piece

/-- `ws_forwarded_client` with an output of `outsz` bytes; `none` is its `-1`. The list is copied
into a buffer of its own first, and the walk takes it apart there. -/
def wsForwardedClient (list : Text) (outsz : Nat) : Option Text :=
  let out := clip outsz
    (forwardedWalk ipMaskMatch globs ((clip 256 list).splitOnP (· == ',')).reverse)
  if out = [] then none else some out

end Walk

/-! ## 3. What the proxies write

What arrives is written by the client first and then by the proxies. The client may write anything
that is a header, and the proxies write what they saw. -/

/-- An address as proxies write it: a word without commas that fits an output of 64 bytes. Proxies
write nothing else behind a comma. -/
structure AddressText (h : Text) : Prop where
  ne_nil : h ≠ []
  short : h.length < 64
  no_comma : ',' ∉ h
  no_blank : ∀ c ∈ h, isBlank c = false
  no_lf : '\n' ∉ h
  no_nul : '\x00' ∉ h

instance (h : Text) : Decidable (AddressText h) :=
  decidable_of_iff
    (h ≠ [] ∧ h.length < 64 ∧ ',' ∉ h ∧ (∀ c ∈ h, isBlank c = false) ∧ '\n' ∉ h ∧ '\x00' ∉ h)
    ⟨fun ⟨h1, h2, h3, h4, h5, h6⟩ => ⟨h1, h2, h3, h4, h5, h6⟩,
      fun ⟨h1, h2, h3, h4, h5, h6⟩ => ⟨h1, h2, h3, h4, h5, h6⟩⟩

inductive Scheme
  | http | https
deriving DecidableEq, Repr

def Scheme.text : Scheme → Text
  | .http => "http".toList
  | .https => "https".toList

/-- What a chain of proxies appends: the peer that each saw, the client's own address among them,
and the scheme it was reached by. -/
structure ProxyChain (trusted : Text → Bool) where
  hops : List Text
  address : ∀ h ∈ hops, AddressText h
  client : ∃ h ∈ hops, trusted h = false
  schemes : List Scheme
  reached : schemes ≠ []

/-- A list header: what the client sent itself, if anything, and what was appended to it. -/
def listed (own : Option Text) (words : List Text) : Text :=
  match own, words with
  | some p, ws => p ++ ws.flatMap fun w => ',' :: ' ' :: w
  | none, w :: ws => w ++ ws.flatMap fun w => ',' :: ' ' :: w
  | none, [] => []

/-- Another line of the request. -/
structure OtherLine (l : Text) : Prop where
  no_lf : '\n' ∉ l
  not_for : headerOf "X-Forwarded-For".toList l = none
  not_proto : headerOf "X-Forwarded-Proto".toList l = none

instance (l : Text) : Decidable (OtherLine l) :=
  decidable_of_iff
    ('\n' ∉ l ∧ headerOf "X-Forwarded-For".toList l = none ∧
      headerOf "X-Forwarded-Proto".toList l = none)
    ⟨fun ⟨h1, h2, h3⟩ => ⟨h1, h2, h3⟩, fun ⟨h1, h2, h3⟩ => ⟨h1, h2, h3⟩⟩

/-- What the client puts into the two headers. -/
structure OwnHeaders where
  addresses : Option Text
  protos : Option Text
  no_lf : (∀ p ∈ addresses, '\n' ∉ p) ∧ ∀ p ∈ protos, '\n' ∉ p

/-- The other lines of a request, with places for the two headers between them, and which of the two
comes first. -/
structure RequestFrame where
  front : List Text
  between : List Text
  back : List Text
  other : ∀ l ∈ front ++ between ++ back, OtherLine l
  protoFirst : Bool

def joinLines : List Text → Text
  | [] => []
  | [l] => l
  | l :: ls => l ++ '\r' :: '\n' :: joinLines ls

section Request

variable {trusted : Text → Bool} (chain : ProxyChain trusted) (frame : RequestFrame)
  (own : OwnHeaders)

/-- The two headers as they arrive. -/
def forLine : Text := "X-Forwarded-For: ".toList ++ listed own.addresses chain.hops

def protoLine : Text :=
  "X-Forwarded-Proto: ".toList ++ listed own.protos (chain.schemes.map Scheme.text)

/-- The lines of the request. -/
def requestLines : List Text :=
  frame.front ++ (if frame.protoFirst then protoLine chain own else forLine chain own) ::
    (frame.between ++ (if frame.protoFirst then forLine chain own else protoLine chain own) ::
      frame.back)

/-- The request as it is looked at: `ws_read` copies its bytes, and makes a string of them. -/
def proxiedRequest : Text := cString (joinLines (requestLines chain frame own))

/-- No NUL stands before the end of the addresses. -/
structure AddressWhole : Prop where
  front : ∀ l ∈ frame.front, '\x00' ∉ l
  addresses : ∀ p ∈ own.addresses, '\x00' ∉ p
  before : frame.protoFirst = true →
    (∀ l ∈ frame.between, '\x00' ∉ l) ∧ ∀ p ∈ own.protos, '\x00' ∉ p

/-- The client puts no NUL into the list of schemes.  One anywhere before it hides the header, and
then the connection does not count as secure. -/
def SchemeWhole : Prop := ∀ p ∈ own.protos, '\x00' ∉ p

/-- The two values, without the blanks around them. -/
def addressValue : Text := trimBlanks (listed own.addresses chain.hops)

def protoValue : Text := trimBlanks (listed own.protos (chain.schemes.map Scheme.text))

/-- The client's address: the right-most one the proxies wrote that is not a trusted proxy. -/
def ProxyChain.realClient : Option Text := chain.hops.reverse.find? fun h => !trusted h

end Request

/-! ## 4. Reading the headers -/

theorem crlfLines_ne_nil : ∀ s : Text, crlfLines s ≠ []
  | [] => by simp [crlfLines]
  | c :: s => by
    unfold crlfLines
    split
    · simp
    · simp
    · split <;> simp

theorem crlfLines_cons {c : Char} {s : Text} (h : ¬ (c = '\r' ∧ s.head? = some '\n')) :
    ∃ l ls, crlfLines s = l :: ls ∧ crlfLines (c :: s) = (c :: l) :: ls := by
  obtain ⟨l, ls, hs⟩ := List.exists_cons_of_ne_nil (crlfLines_ne_nil s)
  refine ⟨l, ls, hs, ?_⟩
  rw [crlfLines]
  · simp only [hs]
  · rintro s' rfl rfl
    exact h ⟨rfl, rfl⟩

theorem crlfLines_append : ∀ {l : Text}, '\n' ∉ l → ∀ s : Text,
    crlfLines (l ++ '\r' :: '\n' :: s) = l :: crlfLines s
  | [], _, s => by rw [List.nil_append, crlfLines]
  | c :: l, h, s => by
    have hl : '\n' ∉ l := fun hm => h (List.mem_cons_of_mem _ hm)
    have hne : ¬ (c = '\r' ∧ (l ++ '\r' :: '\n' :: s).head? = some '\n') := by
      rintro ⟨-, hd⟩
      cases l with
      | nil => exact absurd hd (by simp)
      | cons d l => exact hl (by simp only [List.cons_append, List.head?_cons, Option.some.injEq] at hd; simp [hd])
    obtain ⟨l', ls, h1, h2⟩ := crlfLines_cons hne
    rw [List.cons_append, h2]
    rw [crlfLines_append hl s] at h1
    simp only [List.cons.injEq] at h1
    rw [← h1.1, ← h1.2]

theorem crlfLines_of_no_lf : ∀ {l : Text}, '\n' ∉ l → crlfLines l = [l]
  | [], _ => rfl
  | c :: l, h => by
    have hl : '\n' ∉ l := fun hm => h (List.mem_cons_of_mem _ hm)
    have hne : ¬ (c = '\r' ∧ l.head? = some '\n') :=
      fun hd => hl (List.mem_of_mem_head? hd.2)
    obtain ⟨l', ls, h1, h2⟩ := crlfLines_cons hne
    rw [crlfLines_of_no_lf hl] at h1
    simp only [List.cons.injEq] at h1
    rw [h2, ← h1.1, ← h1.2]

/-- The lines that were joined are the lines that are read. -/
theorem crlfLines_joinLines : ∀ {ls : List Text}, ls ≠ [] → (∀ l ∈ ls, '\n' ∉ l) →
    crlfLines (joinLines ls) = ls
  | [l], _, h => crlfLines_of_no_lf (h l (by simp))
  | l :: l' :: ls, _, h => by
    have ih : crlfLines (joinLines (l' :: ls)) = l' :: ls :=
      crlfLines_joinLines (by simp) fun x hx => h x (List.mem_cons_of_mem _ hx)
    rw [joinLines, crlfLines_append (h l (by simp)), ih]
    simp

theorem headerOf_for (v : Text) :
    headerOf "X-Forwarded-For".toList ("X-Forwarded-For: ".toList ++ v) = some (trimBlanks v) := by
  rw [headerOf, if_pos ⟨by simp, by simp [caseEq], by simp⟩]
  simp [trimBlanks, isBlank]

theorem headerOf_proto (v : Text) :
    headerOf "X-Forwarded-Proto".toList ("X-Forwarded-Proto: ".toList ++ v) =
      some (trimBlanks v) := by
  rw [headerOf, if_pos ⟨by simp, by simp [caseEq], by simp⟩]
  simp [trimBlanks, isBlank]

theorem headerOf_proto_for (v : Text) :
    headerOf "X-Forwarded-Proto".toList ("X-Forwarded-For: ".toList ++ v) = none := by
  refine if_neg fun h => ?_
  have hf : caseEq "X-Forwarded-For: ".toList "X-Forwarded-Proto".toList = false := by decide
  have ht : ("X-Forwarded-For: ".toList ++ v).take "X-Forwarded-Proto".toList.length =
      "X-Forwarded-For: ".toList := by simp
  rw [ht, hf] at h
  exact Bool.noConfusion h.2.1

theorem headerOf_for_proto (v : Text) :
    headerOf "X-Forwarded-For".toList ("X-Forwarded-Proto: ".toList ++ v) = none := by
  refine if_neg fun h => ?_
  have hf : caseEq "X-Forwarded-Pro".toList "X-Forwarded-For".toList = false := by decide
  have ht : ("X-Forwarded-Proto: ".toList ++ v).take "X-Forwarded-For".toList.length =
      "X-Forwarded-Pro".toList := by simp
  rw [ht, hf] at h
  exact Bool.noConfusion h.2.1

/-- What is left of a line is no header that the line is not. -/
theorem headerOf_cString {name l : Text} (h : headerOf name l = none) :
    headerOf name (cString l) = none := by
  obtain ⟨r, hr⟩ := cString_isPrefix l
  generalize cString l = c at hr ⊢
  subst hr
  rw [headerOf] at h
  refine if_neg fun hcut => ?_
  obtain ⟨hlen, hname, hcolon⟩ := hcut
  have htake : (c ++ r).take name.length = c.take name.length :=
    List.take_append_of_le_length (Nat.le_of_lt hlen)
  have hdrop : ((c ++ r).drop name.length).head? = some ':' := by
    rw [List.drop_append_of_le_length (Nat.le_of_lt hlen), List.head?_append, hcolon,
      Option.some_or]
  have hlong : name.length < (c ++ r).length := by
    rw [List.length_append]
    exact Nat.lt_add_right _ hlen
  rw [if_pos ⟨hlong, htake ▸ hname, hdrop⟩] at h
  exact absurd h (Option.some_ne_none _)

theorem mem_listed {own : Option Text} {ws : List Text} {c : Char} (h : c ∈ listed own ws) :
    (∃ p ∈ own, c ∈ p) ∨ c = ',' ∨ c = ' ' ∨ ∃ w ∈ ws, c ∈ w := by
  unfold listed at h
  split at h <;> simp at h ⊢ <;> grind

/-- A character that neither the client nor a proxy wrote is no separator, so it is not there. -/
theorem notMem_listed {own : Option Text} {ws : List Text} {c : Char} (hown : ∀ p ∈ own, c ∉ p)
    (hws : ∀ w ∈ ws, c ∉ w) (hcomma : c ≠ ',') (hspace : c ≠ ' ') : c ∉ listed own ws := by
  intro h
  rcases mem_listed h with ⟨p, hp, hm⟩ | h | h | ⟨w, hw, hm⟩
  · exact hown p hp hm
  · exact hcomma h
  · exact hspace h
  · exact hws w hw hm

/-- A header line has no LF, and no NUL, that is not in one of its parts. -/
theorem header_notMem {field : Text} {own : Option Text} {ws : List Text} {c : Char}
    (hc : c = '\n' ∨ c = '\x00') (hfield : '\n' ∉ field ∧ '\x00' ∉ field)
    (hown : ∀ p ∈ own, c ∉ p) (hws : ∀ w ∈ ws, c ∉ w) : c ∉ field ++ listed own ws := by
  intro h
  rcases List.mem_append.mp h with h | h
  · rcases hc with rfl | rfl
    · exact hfield.1 h
    · exact hfield.2 h
  · refine notMem_listed hown hws ?_ ?_ h
    · rcases hc with rfl | rfl <;> decide
    · rcases hc with rfl | rfl <;> decide

theorem Scheme.plain (s : Scheme) : '\n' ∉ s.text ∧ '\x00' ∉ s.text := by cases s <;> decide

/-- The lines up to the first NUL. -/
def cutLines : List Text → List Text
  | [] => []
  | l :: ls => if '\x00' ∈ l then [cString l] else l :: cutLines ls

theorem cString_joinLines : ∀ {ls : List Text}, ls ≠ [] →
    cString (joinLines ls) = joinLines (cutLines ls) ∧ cutLines ls ≠ []
  | [l], _ => by
    rw [joinLines, cutLines]
    split
    · exact ⟨rfl, List.cons_ne_nil _ _⟩
    · next h => exact ⟨cString_eq_self.mpr h, List.cons_ne_nil _ _⟩
  | l :: l' :: ls, _ => by
    obtain ⟨ih, hne⟩ := cString_joinLines (List.cons_ne_nil l' ls)
    rw [joinLines, cutLines]
    split
    · next h => exact ⟨cString_append_of_mem h _, List.cons_ne_nil _ _⟩
    · next h =>
      refine ⟨?_, List.cons_ne_nil _ _⟩
      have hends : ∀ t, cString ('\r' :: '\n' :: t) = '\r' :: '\n' :: cString t := fun _ => rfl
      obtain ⟨m, ms, hms⟩ := List.exists_cons_of_ne_nil hne
      rw [cString_append_of_notMem h, hends, ih, hms]
      rfl
    · exact fun h => absurd h (List.cons_ne_nil _ _)

theorem mem_cutLines {ls : List Text} {l : Text} (h : l ∈ cutLines ls) :
    l ∈ ls ∨ ∃ l' ∈ ls, l = cString l' := by
  induction ls with
  | nil => exact absurd h List.not_mem_nil
  | cons x ls ih =>
    rw [cutLines] at h
    split at h
    · exact Or.inr ⟨x, List.mem_cons_self, List.mem_singleton.mp h⟩
    · rcases List.mem_cons.mp h with rfl | h
      · exact Or.inl List.mem_cons_self
      · exact (ih h).imp (List.mem_cons_of_mem x)
          fun ⟨l', hl', heq⟩ => ⟨l', List.mem_cons_of_mem x hl', heq⟩

theorem cutLines_append {a : List Text} (h : ∀ l ∈ a, '\x00' ∉ l) (b : List Text) :
    cutLines (a ++ b) = a ++ cutLines b := by
  induction a with
  | nil => rfl
  | cons l a ih =>
    obtain ⟨hl, ha⟩ := List.forall_mem_cons.mp h
    rw [List.cons_append, cutLines, if_neg hl, ih ha, List.cons_append]

theorem cutLines_append_of_nul {a : List Text} (h : ¬ ∀ l ∈ a, '\x00' ∉ l) (b : List Text) :
    cutLines (a ++ b) = cutLines a := by
  induction a with
  | nil => exact absurd (fun l hl => absurd hl List.not_mem_nil) h
  | cons l a ih =>
    rw [List.cons_append, cutLines, cutLines]
    split
    · rfl
    · next hl => rw [ih fun hall => h (List.forall_mem_cons.mpr ⟨hl, hall⟩)]

theorem findSome_cutLines {name : Text} {ls : List Text} (h : ∀ l ∈ ls, headerOf name l = none) :
    (cutLines ls).findSome? (headerOf name) = none := by
  refine List.findSome?_eq_none_iff.mpr fun l hl => ?_
  rcases mem_cutLines hl with hl | ⟨l', hl', rfl⟩
  · exact h l hl
  · exact headerOf_cString (h l' hl')

section Request

variable {trusted : Text → Bool} (chain : ProxyChain trusted) (frame : RequestFrame)
  (own : OwnHeaders)

theorem forLine_notMem {c : Char} (hc : c = '\n' ∨ c = '\x00') (hown : ∀ p ∈ own.addresses, c ∉ p) :
    c ∉ forLine chain own := by
  have hws : ∀ w ∈ chain.hops, c ∉ w := by
    intro w hw
    rcases hc with rfl | rfl
    · exact (chain.address w hw).no_lf
    · exact (chain.address w hw).no_nul
  exact header_notMem hc (by decide) hown hws

theorem protoLine_notMem {c : Char} (hc : c = '\n' ∨ c = '\x00') (hown : ∀ p ∈ own.protos, c ∉ p) :
    c ∉ protoLine chain own := by
  have hws : ∀ w ∈ chain.schemes.map Scheme.text, c ∉ w := by
    intro w hw
    obtain ⟨s, -, rfl⟩ := List.mem_map.mp hw
    rcases hc with rfl | rfl
    · exact s.plain.1
    · exact s.plain.2
  exact header_notMem hc (by decide) hown hws

/-- The lines that are read are those of the request, up to its first NUL. -/
theorem crlfLines_proxiedRequest :
    crlfLines (proxiedRequest chain frame own) = cutLines (requestLines chain frame own) := by
  have hne : requestLines chain frame own ≠ [] := by simp [requestLines]
  obtain ⟨hjoin, hcut⟩ := cString_joinLines hne
  have hlf : ∀ l ∈ requestLines chain frame own, '\n' ∉ l := by
    have hother : ∀ l' ∈ frame.front ++ frame.between ++ frame.back, '\n' ∉ l' :=
      fun l' h => (frame.other l' h).no_lf
    have hfor := forLine_notMem chain own (Or.inl rfl) own.no_lf.1
    have hproto := protoLine_notMem chain own (Or.inl rfl) own.no_lf.2
    intro l hl
    simp only [requestLines, List.mem_append, List.mem_cons] at hl hother
    rcases hl with hl | rfl | hl | rfl | hl
    · exact hother l (.inl (.inl hl))
    · split
      · exact hproto
      · exact hfor
    · exact hother l (.inl (.inr hl))
    · split
      · exact hfor
      · exact hproto
    · exact hother l (.inr hl)
  rw [proxiedRequest, hjoin, crlfLines_joinLines hcut]
  intro l hl
  rcases mem_cutLines hl with hl | ⟨l', hl', rfl⟩
  · exact hlf l hl
  · exact fun hm => hlf l' hl' ((cString_isPrefix l').subset hm)

/-- The first of the lines before which there is no NUL is found. -/
theorem findSome_cutLines_append {name line v : Text} {a : List Text}
    (ha : ∀ l ∈ a, '\x00' ∉ l ∧ headerOf name l = none) (hline : '\x00' ∉ line)
    (hv : headerOf name line = some v) (b : List Text) :
    (cutLines (a ++ line :: b)).findSome? (headerOf name) = some v := by
  rw [cutLines_append fun l hl => (ha l hl).1, cutLines, if_neg hline, List.findSome?_append,
    List.findSome?_eq_none_iff.mpr fun l hl => (ha l hl).2, Option.none_or, List.findSome?_cons, hv]

/-- **The addresses** are read as they arrived, if no NUL stands before their end. -/
theorem headerValue_for (h : AddressWhole frame own) (outsz : Nat) :
    headerValue (proxiedRequest chain frame own) "X-Forwarded-For".toList outsz =
      some (clip outsz (addressValue chain own)) := by
  have hfront : ∀ l ∈ frame.front, '\x00' ∉ l ∧ headerOf "X-Forwarded-For".toList l = none :=
    fun l hl => ⟨h.front l hl, (frame.other l (by simp [hl])).not_for⟩
  have hline := forLine_notMem chain own (Or.inr rfl) h.addresses
  have hvalue : headerOf "X-Forwarded-For".toList (forLine chain own) =
      some (addressValue chain own) := headerOf_for _
  rw [headerValue, crlfLines_proxiedRequest, requestLines]
  cases hfirst : frame.protoFirst with
  | false =>
    rw [if_neg Bool.false_ne_true, if_neg Bool.false_ne_true,
      findSome_cutLines_append hfront hline hvalue]
    rfl
  | true =>
    obtain ⟨hbetween, hproto⟩ := h.before hfirst
    have hall : ∀ l ∈ frame.front ++ protoLine chain own :: frame.between,
        '\x00' ∉ l ∧ headerOf "X-Forwarded-For".toList l = none := by
      intro l hl
      rcases List.mem_append.mp hl with hl | hl
      · exact hfront l hl
      · rcases List.mem_cons.mp hl with rfl | hl
        · exact ⟨protoLine_notMem chain own (Or.inr rfl) hproto, headerOf_for_proto _⟩
        · exact ⟨hbetween l hl, (frame.other l (by simp [hl])).not_for⟩
    have hsplit : frame.front ++ protoLine chain own ::
        (frame.between ++ forLine chain own :: frame.back) =
        (frame.front ++ protoLine chain own :: frame.between) ++ forLine chain own :: frame.back := by
      rw [List.append_assoc, List.cons_append]
    rw [if_pos rfl, if_pos rfl, hsplit, findSome_cutLines_append hall hline hvalue]
    rfl

/-- The lines that no proxy wrote the schemes into. -/
theorem headerOf_proto_other {l : Text}
    (hl : l ∈ forLine chain own :: (frame.front ++ frame.between ++ frame.back)) :
    headerOf "X-Forwarded-Proto".toList l = none := by
  rcases List.mem_cons.mp hl with rfl | hl
  · exact headerOf_proto_for _
  · exact (frame.other l hl).not_proto

/-- The lines in front of the schemes. -/
def beforeProto : List Text :=
  if frame.protoFirst then frame.front else frame.front ++ forLine chain own :: frame.between

/-- **The schemes** are read as they arrived, or not at all if a NUL hides them. -/
theorem headerValue_proto (h : SchemeWhole own) (outsz : Nat) :
    headerValue (proxiedRequest chain frame own) "X-Forwarded-Proto".toList outsz =
      if ∀ l ∈ beforeProto chain frame own, '\x00' ∉ l then
        some (clip outsz (protoValue chain own))
      else none := by
  have hline := protoLine_notMem chain own (Or.inr rfl) h
  have hvalue : headerOf "X-Forwarded-Proto".toList (protoLine chain own) =
      some (protoValue chain own) := headerOf_proto _
  obtain ⟨b, hlines⟩ : ∃ b, requestLines chain frame own =
      beforeProto chain frame own ++ protoLine chain own :: b := by
    cases hfirst : frame.protoFirst with
    | false => exact ⟨frame.back, by simp [requestLines, beforeProto, hfirst]⟩
    | true =>
      exact ⟨frame.between ++ forLine chain own :: frame.back, by
        simp [requestLines, beforeProto, hfirst]⟩
  have hbefore : ∀ l ∈ beforeProto chain frame own, headerOf "X-Forwarded-Proto".toList l = none := by
    intro l hl
    refine headerOf_proto_other chain frame own ?_
    rw [beforeProto] at hl
    split at hl
    · exact List.mem_cons_of_mem _ (List.mem_append_left _ (List.mem_append_left _ hl))
    · simp only [List.mem_append, List.mem_cons] at hl ⊢
      tauto
  rw [headerValue, crlfLines_proxiedRequest, hlines]
  split
  · next hnul =>
    rw [findSome_cutLines_append (fun l hl => ⟨hnul l hl, hbefore l hl⟩) hline hvalue]
    rfl
  · next hnul =>
    rw [cutLines_append_of_nul hnul, findSome_cutLines hbefore]
    rfl

/-- What `ws_parse_request` takes from the two headers. -/
theorem wsParseRequest_some {req : Text} {wr : WsRequest} (h : wsParseRequest req = some wr) :
    wr.forwarded = ((headerValue req "X-Forwarded-For".toList 256).or
        (headerValue req "X-Real-IP".toList 256)).getD [] ∧
      (wr.https = true ↔ (headerValue req "X-Forwarded-Proto".toList 64).getD [] ≠ [] ∧
        ∀ t ∈ strtokAny [',', ' ', '\t'] ((headerValue req "X-Forwarded-Proto".toList 64).getD []),
          caseEq t "https".toList = true) := by
  unfold wsParseRequest at h
  split at h
  · exact absurd h (by simp)
  · split at h
    · split at h
      · cases h
        refine ⟨rfl, ?_⟩
        simp only [Bool.and_eq_true, List.all_eq_true, decide_eq_true_eq]
      · exact absurd h (by simp)
    · exact absurd h (by simp)

variable {chain frame own}

theorem forwarded_of_whole (hwhole : AddressWhole frame own) {wr : WsRequest}
    (h : wsParseRequest (proxiedRequest chain frame own) = some wr) :
    wr.forwarded = clip 256 (addressValue chain own) := by
  rw [(wsParseRequest_some h).1, headerValue_for chain frame own hwhole]
  rfl

/-- A connection that counts as secure does so by the value that arrived. -/
theorem https_of_whole (hwhole : SchemeWhole own) {wr : WsRequest}
    (h : wsParseRequest (proxiedRequest chain frame own) = some wr) (hs : wr.https = true) :
    ∀ t ∈ strtokAny [',', ' ', '\t'] (clip 64 (protoValue chain own)),
      caseEq t "https".toList = true := by
  obtain ⟨hne, hall⟩ := (wsParseRequest_some h).2.mp hs
  rw [headerValue_proto chain frame own hwhole] at hne hall
  split at hne
  · next hnul =>
    rw [if_pos hnul] at hall
    exact hall
  · exact absurd rfl hne

end Request

/-! ## 5. The pieces of a list header

The client's text may have commas of its own, so the pieces of the value are its pieces and then
those of the proxies. -/

/-- A word of a list: not empty, and without separators. -/
structure ListWord (w : Text) : Prop where
  ne_nil : w ≠ []
  no_comma : ',' ∉ w
  no_blank : ∀ c ∈ w, isBlank c = false

theorem AddressText.listWord {h : Text} (hh : AddressText h) : ListWord h :=
  ⟨hh.ne_nil, hh.no_comma, hh.no_blank⟩

theorem Scheme.listWord (s : Scheme) : ListWord s.text := by
  cases s <;> exact ⟨by decide, by decide, by decide⟩

theorem rdropWhile_of_word (a : Text) {w : Text} (hw : ListWord w) :
    (a ++ w).rdropWhile isBlank = a ++ w := by
  refine List.rdropWhile_eq_self_iff.mpr fun hne => ?_
  rw [List.getLast_append_of_right_ne_nil _ _ hw.ne_nil]
  exact (hw.no_blank _ (List.getLast_mem _)).symm ▸ Bool.false_ne_true

theorem dropWhile_of_word {w : Text} (hw : ListWord w) (r : Text) :
    (w ++ r).dropWhile isBlank = w ++ r := by
  obtain ⟨c, w', rfl⟩ := List.exists_cons_of_ne_nil hw.ne_nil
  rw [List.cons_append, List.dropWhile_cons_of_neg]
  simp [hw.no_blank c List.mem_cons_self]

theorem listed_concat (own : Option Text) (ws : List Text) (w : Text) :
    ∃ a, listed own (ws ++ [w]) = a ++ w := by
  cases own with
  | some p => exact ⟨p ++ (ws.flatMap fun w => ',' :: ' ' :: w) ++ [',', ' '], by simp [listed]⟩
  | none =>
    cases ws with
    | nil => exact ⟨[], by simp [listed]⟩
    | cons v ws => exact ⟨v ++ (ws.flatMap fun w => ',' :: ' ' :: w) ++ [',', ' '], by simp [listed]⟩

theorem trimBlanks_listed (own : Option Text) {ws : List Text} (hne : ws ≠ [])
    (hw : ∀ w ∈ ws, ListWord w) :
    trimBlanks (listed own ws) = listed (own.map (List.dropWhile isBlank)) ws := by
  have hdrop : (listed own ws).dropWhile isBlank =
      listed (own.map (List.dropWhile isBlank)) ws := by
    cases ws with
    | nil => exact absurd rfl hne
    | cons w ws =>
      cases own with
      | none => exact dropWhile_of_word (hw w List.mem_cons_self) _
      | some p =>
        have hc : isBlank ',' = false := rfl
        simp only [listed, Option.map_some, List.flatMap_cons, List.cons_append,
          List.dropWhile_append, List.dropWhile_cons, hc]
        split
        · rename_i h
          simp [List.isEmpty_iff.mp h]
        · rfl
  obtain ⟨ws', w, rfl⟩ := List.eq_nil_or_concat ws |>.resolve_left hne
  obtain ⟨a, he⟩ := listed_concat (own.map (List.dropWhile isBlank)) ws' w
  rw [← List.concat_eq_append] at he
  rw [trimBlanks, hdrop, he, rdropWhile_of_word a (hw w (by simp))]

/-- The pieces of a list between commas: those of what the client sent, then the words. -/
theorem map_listEntry_listed (own : Option Text) {ws : List Text} (hne : ws ≠ [])
    (hw : ∀ w ∈ ws, ListWord w) :
    ∃ seeded, ((listed own ws).splitOnP (· == ',')).map listEntry = seeded ++ ws := by
  have hentry : ∀ w ∈ ws, listEntry w = w ∧ listEntry (' ' :: w) = w := by
    intro w hm
    have hd : w.dropWhile isBlank = w := by simpa using dropWhile_of_word (hw w hm) []
    have ht : w.takeWhile (fun c => !isBlank c) = w :=
      List.takeWhile_eq_self_iff.mpr fun c hc => by simp [(hw w hm).no_blank c hc]
    have hb : (' ' :: w).dropWhile isBlank = w := by
      rw [List.dropWhile_cons_of_pos (by rfl), hd]
    exact ⟨by rw [listEntry, hd, ht], by rw [listEntry, hb, ht]⟩
  have htail : ∀ (ws' : List Text) (a : Text), (∀ w ∈ ws', w ∈ ws) →
      ((a ++ ws'.flatMap fun w => ',' :: ' ' :: w).splitOnP (· == ',')).map listEntry =
        (a.splitOnP (· == ',')).map listEntry ++ ws' := by
    intro ws'
    induction ws' using List.reverseRecOn with
    | nil => intro a _; simp
    | append_singleton ws' w ih =>
      intro a hsub
      have hm : w ∈ ws := hsub w (by simp)
      have hword : (' ' :: w).splitOnP (· == ',') = [' ' :: w] :=
        List.splitOnP_eq_singleton fun c hc => by
          rcases List.mem_cons.mp hc with rfl | hc
          · rfl
          · exact beq_eq_false_iff_ne.mpr fun e => (hw w hm).no_comma (e ▸ hc)
      have hshape : a ++ (ws' ++ [w]).flatMap (fun w => ',' :: ' ' :: w) =
          (a ++ ws'.flatMap fun w => ',' :: ' ' :: w) ++ ',' :: ' ' :: w := by simp
      rw [hshape, List.splitOnP_append_cons _ _ (by rfl), List.map_append,
        ih a fun x hx => hsub x (by simp [hx]), hword, List.map_singleton, (hentry w hm).2,
        List.append_assoc]
  cases own with
  | some p => exact ⟨_, htail ws p fun _ h => h⟩
  | none =>
    cases ws with
    | nil => exact absurd rfl hne
    | cons w ws =>
      refine ⟨[], ?_⟩
      have hword : w.splitOnP (· == ',') = [w] :=
        List.splitOnP_eq_singleton fun c hc =>
          beq_eq_false_iff_ne.mpr fun e => (hw w List.mem_cons_self).no_comma (e ▸ hc)
      rw [listed, htail ws w fun _ h => List.mem_cons_of_mem _ h, hword, List.map_singleton,
        (hentry w List.mem_cons_self).1]
      rfl

/-! ## 6. A value that fits

As long as nothing is cut off, the walk meets what the proxies wrote before anything else. -/

section Walk

variable {ipMaskMatch : Text → Text → Bool} {globs : List Text}

/-- The walk stops at the first entry that is not a trusted proxy. -/
theorem forwardedWalk_of_find {h : Text} : ∀ {pieces : List Text},
    ((pieces.map listEntry).find? fun e => !globs.any (ipMaskMatch · e)) = some h →
    forwardedWalk ipMaskMatch globs pieces = h
  | [piece], hf => by
    simp only [List.map_cons, List.map_nil, List.find?_singleton] at hf
    split at hf
    · exact Option.some.inj hf
    · exact absurd hf (by simp)
  | piece :: p :: rest, hf => by
    rw [List.map_cons, List.find?_cons] at hf
    simp only [forwardedWalk]
    cases ht : globs.any (ipMaskMatch · (listEntry piece)) with
    | true =>
      rw [ht] at hf
      exact forwardedWalk_of_find hf
    | false =>
      rw [ht] at hf
      exact Option.some.inj hf

variable (ipMaskMatch globs)

/-- An address of the configured proxies. -/
def trustedProxy (h : Text) : Bool := globs.any (ipMaskMatch · h)

variable (chain : ProxyChain (trustedProxy ipMaskMatch globs)) (frame : RequestFrame)
  (own : OwnHeaders)

/-- The client gets its real address, as the proxies saw it, whatever the client itself wrote in
front of it. -/
def AddressRight : Prop :=
  ∀ wr, wsParseRequest (proxiedRequest chain frame own) = some wr →
    wsForwardedClient ipMaskMatch globs wr.forwarded 64 = chain.realClient

/-- The connection counts as secure only if it was at every hop. The other direction is not asked:
a doubt may make it count as insecure. -/
def SchemeRight : Prop :=
  ∀ wr, wsParseRequest (proxiedRequest chain frame own) = some wr →
    wr.https = true → ∀ s ∈ chain.schemes, s = .https

end Walk

section Fits

variable {ipMaskMatch : Text → Text → Bool} {globs : List Text}
  (chain : ProxyChain (trustedProxy ipMaskMatch globs)) (frame : RequestFrame)
  (own : OwnHeaders)

theorem hops_ne_nil : chain.hops ≠ [] := by
  obtain ⟨h, hm, -⟩ := chain.client
  exact List.ne_nil_of_mem hm

theorem addressRight_of_fits (hwhole : AddressWhole frame own)
    (h : (addressValue chain own).length < 256) :
    AddressRight ipMaskMatch globs chain frame own := by
  intro wr hp
  have hw : ∀ w ∈ chain.hops, ListWord w := fun w hm => (chain.address w hm).listWord
  have hfwd : clip 256 wr.forwarded = addressValue chain own := by
    rw [forwarded_of_whole hwhole hp, clip_clip, clip_of_fits h]
  have htrim := trimBlanks_listed own.addresses (hops_ne_nil chain) hw
  obtain ⟨seeded, hs⟩ := map_listEntry_listed (own.addresses.map (List.dropWhile isBlank))
    (hops_ne_nil chain) hw
  rw [← htrim] at hs
  -- the right-most address that is not trusted is one that the proxies wrote
  obtain ⟨real, hr⟩ : ∃ real, chain.realClient = some real := by
    obtain ⟨c, hc, ht⟩ := chain.client
    exact Option.isSome_iff_exists.mp
      (List.find?_isSome.mpr ⟨c, List.mem_reverse.mpr hc, by simp [ht]⟩)
  have hmem : real ∈ chain.hops := List.mem_reverse.mp (List.mem_of_find?_eq_some hr)
  have hwalk : forwardedWalk ipMaskMatch globs
      ((addressValue chain own).splitOnP (· == ',')).reverse = real := by
    refine forwardedWalk_of_find ?_
    rw [List.map_reverse, addressValue, hs, List.reverse_append, List.find?_append]
    exact congrArg (Option.or · _) hr
  rw [wsForwardedClient, hfwd, hwalk, clip_of_fits (chain.address real hmem).short,
    if_neg (chain.address real hmem).ne_nil, hr]

/-- Each word of a list starts it or follows a blank, and ends it or is followed by a comma. -/
theorem listed_split (own : Option Text) (ws : List Text) (w : Text) (ws' : List Text) :
    ∃ a, (a = [] ∨ ∃ a', a = a' ++ [' ']) ∧
      listed own (ws ++ w :: ws') = a ++ (w ++ ws'.flatMap fun w => ',' :: ' ' :: w) := by
  cases own with
  | some p =>
    exact ⟨p ++ (ws.flatMap fun w => ',' :: ' ' :: w) ++ [',', ' '],
      .inr ⟨p ++ (ws.flatMap fun w => ',' :: ' ' :: w) ++ [','], by simp⟩, by simp [listed]⟩
  | none =>
    cases ws with
    | nil => exact ⟨[], .inl rfl, by simp [listed]⟩
    | cons v ws =>
      exact ⟨v ++ (ws.flatMap fun w => ',' :: ' ' :: w) ++ [',', ' '],
        .inr ⟨v ++ (ws.flatMap fun w => ',' :: ' ' :: w) ++ [','], by simp⟩, by simp [listed]⟩

theorem sep_notMem_of_word {w : Text} (hw : ListWord w) :
    ∀ c ∈ w, decide (c ∈ [',', ' ', '\t']) = false := by
  intro c hc
  have hb := hw.no_blank c hc
  have hn : c ≠ ',' := fun e => hw.no_comma (e ▸ hc)
  simp [isBlank] at hb
  simp [hn, hb]

/-- A token of which the buffer keeps a part is read as that part. -/
theorem exists_token_of_clip {a w : Text} (ha : a = [] ∨ ∃ a', a = a' ++ [' ']) (hw : ListWord w)
    (ws : List Text) {n : Nat} (hn : a.length + 1 < n) :
    w.take (n - 1 - a.length) ∈ strtokAny [',', ' ', '\t']
      (clip n (a ++ (w ++ ws.flatMap fun w => ',' :: ' ' :: w))) := by
  obtain ⟨k, hk⟩ : ∃ k, n - 1 - a.length = k + 1 := ⟨n - 2 - a.length, by omega⟩
  have hsep := sep_notMem_of_word hw
  have hne : w.take (k + 1) ≠ [] := by simp [hw.ne_nil]
  have hhead : w.take (k + 1) ∈
      ((w ++ ws.flatMap fun w => ',' :: ' ' :: w).take (k + 1)).splitOnP
        (· ∈ [',', ' ', '\t']) := by
    rcases Nat.lt_or_ge w.length (k + 1) with hl | hl
    · cases ws with
      | nil =>
        rw [List.flatMap_nil, List.append_nil, List.take_of_length_le (by omega),
          List.splitOnP_eq_singleton hsep]
        exact List.mem_singleton_self w
      | cons v ws =>
        obtain ⟨j, hj⟩ : ∃ j, k + 1 - w.length = j + 1 := ⟨k - w.length, by omega⟩
        rw [List.flatMap_cons, List.take_append, List.take_of_length_le (by omega), hj,
          List.cons_append, List.take_succ_cons,
          List.splitOnP_append_cons_of_forall_mem hsep _ (by simp)]
        exact List.mem_cons_self
    · rw [List.take_append_of_le_length hl,
        List.splitOnP_eq_singleton fun c hc => hsep c (List.mem_of_mem_take hc)]
      exact List.mem_singleton_self _
  have hcut : clip n (a ++ (w ++ ws.flatMap fun w => ',' :: ' ' :: w)) =
      a ++ (w ++ ws.flatMap fun w => ',' :: ' ' :: w).take (k + 1) := by
    rw [clip, List.take_append, List.take_of_length_le (by omega), hk]
  rw [hk, strtokAny, hcut]
  refine List.mem_filter.mpr ⟨?_, by simp [hne]⟩
  rcases ha with rfl | ⟨a', rfl⟩
  · exact hhead
  · rw [List.append_assoc, List.singleton_append, List.splitOnP_append_cons _ _ (by simp)]
    exact List.mem_append_right _ hhead

theorem schemeRight_of_fits (hwhole : SchemeWhole own) (h : (protoValue chain own).length < 67) :
    SchemeRight ipMaskMatch globs chain frame own := by
  intro wr hp hs s hm
  have hw : ∀ w ∈ chain.schemes.map Scheme.text, ListWord w := by
    intro w hw
    obtain ⟨s, -, rfl⟩ := List.mem_map.mp hw
    exact s.listWord
  have hread := https_of_whole hwhole hp hs
  cases s with
  | https => rfl
  | http =>
    -- the buffer keeps at least one letter of it, and no more than four
    obtain ⟨pre, post, hsplit⟩ := List.append_of_mem hm
    obtain ⟨a, ha, hl⟩ := listed_split (own.protos.map (List.dropWhile isBlank))
      (pre.map Scheme.text) Scheme.http.text (post.map Scheme.text)
    have hv : protoValue chain own = a ++ (Scheme.http.text ++
        (post.map Scheme.text).flatMap fun w => ',' :: ' ' :: w) := by
      rw [protoValue, trimBlanks_listed _ (by simp [chain.reached]) hw, hsplit, List.map_append,
        List.map_cons, hl]
    have h4 : Scheme.http.text.length = 4 := rfl
    have hlen : a.length + 1 < 64 := by
      rw [hv, List.length_append, List.length_append, h4] at h
      omega
    have htok := exists_token_of_clip ha Scheme.http.listWord (post.map Scheme.text) hlen
    rw [← hv] at htok
    have heq := congrArg List.length (caseEq_iff.mp (hread _ htok))
    rw [lower_length, lower_length, List.length_take] at heq
    have h5 : "https".toList.length = 5 := rfl
    omega

end Fits

/-! ## 7. A value that does not fit -/

/-- The lines of a plain upgrade request. -/
def upgradeLines : List Text :=
  ["GET / HTTP/1.1".toList, "Upgrade: websocket".toList, "Sec-WebSocket-Key: k".toList]

/-- A plain upgrade request. -/
def upgradeFrame : RequestFrame where
  front := upgradeLines
  between := []
  back := []
  other := by decide
  protoFirst := false

theorem upgradeFrame_front : upgradeFrame.front = upgradeLines ++ [] := rfl

section Upgrade

variable {trusted : Text → Bool} (chain : ProxyChain trusted) (own : OwnHeaders)
  {frame : RequestFrame} (more : List Text) (hfront : frame.front = upgradeLines ++ more)

include hfront

theorem headerValue_front (name : Text) {v : Text}
    (h : upgradeLines.findSome? (headerOf name) = some v) (outsz : Nat) :
    headerValue (proxiedRequest chain frame own) name outsz = some (clip outsz v) := by
  have hnul : ∀ l ∈ upgradeLines, '\x00' ∉ l := by decide
  rw [headerValue, crlfLines_proxiedRequest, requestLines, hfront, List.append_assoc,
    cutLines_append hnul, List.findSome?_append, h]
  rfl

theorem exists_wsParseRequest :
    ∃ wr, wsParseRequest (proxiedRequest chain frame own) = some wr := by
  have hget : "GET ".toList.isPrefixOf (proxiedRequest chain frame own) = true := by
    have hline : ∀ t, "GET ".toList.isPrefixOf ("GET / HTTP/1.1".toList ++ t) = true := fun _ => rfl
    have hnul : '\x00' ∉ "GET / HTTP/1.1".toList := by decide
    obtain ⟨t, ht⟩ : ∃ t, joinLines (requestLines chain frame own) =
        "GET / HTTP/1.1".toList ++ t := by
      rw [requestLines, hfront]
      exact ⟨_, rfl⟩
    rw [proxiedRequest, ht, cString_append_of_notMem hnul]
    exact hline _
  have hup := headerValue_front chain own more hfront "Upgrade".toList
    (show _ = some "websocket".toList by decide) 32
  have hkey := headerValue_front chain own more hfront "Sec-WebSocket-Key".toList
    (show _ = some "k".toList by decide) 64
  rw [wsParseRequest, if_neg (by rw [hget]; decide), hup, hkey]
  exact ⟨_, if_pos (by decide)⟩

end Upgrade

/-- The front of `upgradeFrame` has no NUL. -/
theorem addressWhole_upgrade {own : OwnHeaders} (h : ∀ p ∈ own.addresses, '\x00' ∉ p) :
    AddressWhole upgradeFrame own :=
  ⟨by decide, h, fun hfirst => absurd hfirst (by decide)⟩

/-- Nor is there one before the schemes, if the client puts none into the addresses. -/
theorem beforeProto_upgrade {trusted : Text → Bool} (chain : ProxyChain trusted) {own : OwnHeaders}
    (h : ∀ p ∈ own.addresses, '\x00' ∉ p) :
    ∀ l ∈ beforeProto chain upgradeFrame own, '\x00' ∉ l := by
  have hlines : ∀ l ∈ upgradeLines, '\x00' ∉ l := by decide
  intro l hl
  rcases List.mem_append.mp hl with hl | hl
  · exact hlines l hl
  · rw [List.mem_singleton.mp hl]
    exact forLine_notMem chain own (Or.inr rfl) h

theorem length_listed_one (p w : Text) : (listed (some p) [w]).length = p.length + w.length + 2 := by
  simp [listed]
  omega

section Exceeds

variable {ipMaskMatch : Text → Text → Bool} {globs : List Text}

theorem listEntry_append_blanks {a : Text} (ha : ListWord a) {r : Text}
    (hr : ∀ c ∈ r, isBlank c = true) : listEntry (a ++ r) = a := by
  rw [listEntry, dropWhile_of_word ha,
    List.takeWhile_append_of_pos fun c hc => by simp [ha.no_blank c hc]]
  cases r with
  | nil => simp
  | cons c r => rw [List.takeWhile_cons_of_neg (by simp [hr c List.mem_cons_self]), List.append_nil]

/-- A seeded address and blanks after it, so many that the buffer loses a part of what the proxy
appended: the walk ends at the seeded address or at what is left of the real one. -/
theorem forwardedWalk_of_cut (ipMaskMatch : Text → Text → Bool) (globs : List Text) {a real : Text} (ha : AddressText a) (hr : AddressText real) {k : Nat}
    (hk : 256 ≤ a.length + k + 2 + real.length) :
    ∃ w, forwardedWalk ipMaskMatch globs ((clip 256
        (listed (some (a ++ List.replicate k ' ')) [real])).splitOnP (· == ',')).reverse = w ∧
      (w = a ∨ w.length < real.length) := by
  have hseed : ∀ r : Text, (∀ c ∈ r, isBlank c = true) →
      (a ++ r).splitOnP (· == ',') = [a ++ r] := fun r hb =>
    List.splitOnP_eq_singleton fun c hc => by
      rcases List.mem_append.mp hc with hc | hc
      · exact beq_eq_false_iff_ne.mpr fun e => ha.no_comma (e ▸ hc)
      · have hcb := hb c hc
        exact beq_eq_false_iff_ne.mpr fun e => by rw [e] at hcb; exact absurd hcb (by decide)
  have hblank : ∀ (j : Nat), ∀ c ∈ List.replicate j ' ', isBlank c = true := by
    intro j c hc
    rw [List.eq_of_mem_replicate hc]
    rfl
  have hlist : listed (some (a ++ List.replicate k ' ')) [real] =
      (a ++ List.replicate k ' ') ++ ',' :: ' ' :: real := by simp [listed]
  have hshort := ha.short
  rcases Nat.lt_or_ge (a.length + k) 255 with hlt | hge
  · -- the comma is kept, and a proper beginning of what follows it
    obtain ⟨j, hj⟩ : ∃ j, 255 - (a.length + k) = j + 1 := ⟨254 - (a.length + k), by omega⟩
    have hcut : clip 256 (listed (some (a ++ List.replicate k ' ')) [real]) =
        (a ++ List.replicate k ' ') ++ ',' :: (' ' :: real).take j := by
      have hlen : (a ++ List.replicate k ' ').length = a.length + k := by simp
      rw [hlist, clip, List.take_append, List.take_of_length_le (by omega), hlen, hj,
        List.take_succ_cons]
    have hrest : ((' ' :: real).take j).splitOnP (· == ',') = [(' ' :: real).take j] :=
      List.splitOnP_eq_singleton fun c hc => by
        rcases List.mem_cons.mp (List.mem_of_mem_take hc) with rfl | hc
        · rfl
        · exact beq_eq_false_iff_ne.mpr fun e => hr.no_comma (e ▸ hc)
    have hentry : (listEntry ((' ' :: real).take j)).length < real.length := by
      cases j with
      | zero => exact List.length_pos_iff.mpr hr.ne_nil
      | succ i =>
        have hle : (listEntry (' ' :: real.take i)).length ≤ (real.take i).length := by
          rw [listEntry, List.dropWhile_cons_of_pos (by rfl)]
          exact (List.takeWhile_sublist _).length_le.trans (List.dropWhile_sublist _).length_le
        rw [List.take_succ_cons]
        rw [List.length_take] at hle
        omega
    have hsplit : ((a ++ List.replicate k ' ') ++ ',' :: (' ' :: real).take j).splitOnP
        (· == ',') = [a ++ List.replicate k ' ', (' ' :: real).take j] := by
      rw [List.splitOnP_append_cons _ _ (by rfl), hseed _ (hblank k), hrest]
      rfl
    rw [hcut, hsplit]
    refine ⟨_, rfl, ?_⟩
    simp only [List.reverse_cons, List.reverse_nil, List.nil_append, List.singleton_append,
      forwardedWalk, listEntry_append_blanks ha.listWord (hblank k)]
    split
    · exact .inl rfl
    · exact .inr hentry
  · -- nothing of what the proxy wrote is kept
    have hcut : clip 256 (listed (some (a ++ List.replicate k ' ')) [real]) =
        a ++ List.replicate (255 - a.length) ' ' := by
      rw [hlist, clip, List.take_append_of_le_length (by simp; omega), List.take_append,
        List.take_of_length_le (by omega), List.take_replicate, min_eq_left (by omega)]
    rw [hcut, hseed _ (hblank _)]
    exact ⟨_, rfl, .inl (listEntry_append_blanks ha.listWord (hblank _))⟩

/-- One proxy, which saw `real` and was reached by `scheme`. -/
def oneProxy {trusted : Text → Bool} (real : Text) (hr : AddressText real)
    (ht : trusted real = false) (scheme : Scheme) : ProxyChain trusted where
  hops := [real]
  address := fun _ hm => List.mem_singleton.mp hm ▸ hr
  client := ⟨real, List.mem_singleton_self real, ht⟩
  schemes := [scheme]
  reached := List.cons_ne_nil _ _

theorem exists_addressText_ne (real : Text) : ∃ a, AddressText a ∧ a ≠ real := by
  by_cases h : real = "a".toList
  · exact ⟨"b".toList, by decide, by rw [h]; decide⟩
  · exact ⟨"a".toList, by decide, fun e => h e.symm⟩

/-- The client that is seen at an address that is not its own. -/
theorem not_addressRight_of_forwarded {chain : ProxyChain (trustedProxy ipMaskMatch globs)}
    {frame : RequestFrame} {own : OwnHeaders} (more : List Text)
    (hfront : frame.front = upgradeLines ++ more)
    (h : ∀ wr, wsParseRequest (proxiedRequest chain frame own) = some wr →
      wsForwardedClient ipMaskMatch globs wr.forwarded 64 ≠ chain.realClient) :
    ¬ AddressRight ipMaskMatch globs chain frame own := by
  obtain ⟨wr, hwr⟩ := exists_wsParseRequest chain own more hfront
  exact fun hright => h wr hwr (hright wr hwr)

theorem exists_not_addressRight {real : Text} (hr : AddressText real)
    (ht : trustedProxy ipMaskMatch globs real = false) {n : Nat} (hn : 256 ≤ n) :
    ∃ own, AddressWhole upgradeFrame own ∧
      (addressValue (oneProxy real hr ht .https) own).length = n ∧
      ¬ AddressRight ipMaskMatch globs (oneProxy real hr ht .https) upgradeFrame own := by
  obtain ⟨a, ha, hne⟩ := exists_addressText_ne real
  have h1 := ha.short
  have h2 := hr.short
  obtain ⟨k, hk⟩ : ∃ k, n = a.length + k + 2 + real.length :=
    ⟨n - 2 - real.length - a.length, by omega⟩
  have hlf : '\n' ∉ a ++ List.replicate k ' ' := by
    simpa [List.mem_replicate] using ha.no_lf
  have hnul : '\x00' ∉ a ++ List.replicate k ' ' := by
    simpa [List.mem_replicate] using ha.no_nul
  let own : OwnHeaders := ⟨some (a ++ List.replicate k ' '), none,
    fun p hp => Option.some.inj hp ▸ hlf, fun p hp => absurd hp (by simp)⟩
  have hwhole : AddressWhole upgradeFrame own :=
    addressWhole_upgrade fun p hp => Option.some.inj hp ▸ hnul
  have hvalue : addressValue (oneProxy real hr ht .https) own =
      listed (some (a ++ List.replicate k ' ')) [real] := by
    refine (trimBlanks_listed _ (List.cons_ne_nil _ _) fun w hw => ?_).trans ?_
    · exact (List.mem_singleton.mp hw ▸ hr).listWord
    · simp only [own, Option.map_some, dropWhile_of_word ha.listWord]
  refine ⟨own, hwhole, ?_, not_addressRight_of_forwarded [] rfl fun wr hwr h => ?_⟩
  · rw [hvalue, length_listed_one, List.length_append, List.length_replicate]
    omega
  · have hreal : (oneProxy real hr ht .https).realClient = some real := by
      simp [ProxyChain.realClient, oneProxy, ht]
    rw [forwarded_of_whole hwhole hwr, wsForwardedClient, clip_clip, hvalue, hreal] at h
    simp only [ite_eq_iff, reduceCtorEq, and_false, false_or, Option.some.injEq] at h
    obtain ⟨w, hwalk, hw⟩ := forwardedWalk_of_cut ipMaskMatch globs ha hr (k := k) (by omega)
    rw [hwalk] at h
    rcases hw with rfl | hw
    · rw [clip_of_fits h1] at h
      exact hne h.2
    · rw [clip_of_fits (by omega)] at h
      exact absurd hw (h.2 ▸ lt_irrefl _)

/-- What the proxies wrote is not looked at behind a NUL: the walk starts at what the client wrote
before it. -/
theorem exists_nul_not_addressRight (chain : ProxyChain (trustedProxy ipMaskMatch globs)) :
    ∃ own c, own.addresses = some [c, '\x00'] ∧
      ¬ AddressRight ipMaskMatch globs chain upgradeFrame own := by
  obtain ⟨c, hc, hne⟩ : ∃ c, c ∈ ['a', 'b'] ∧ chain.realClient ≠ some [c] := by
    by_cases h : chain.realClient = some ['a']
    · exact ⟨'b', by simp, by rw [h]; simp⟩
    · exact ⟨'a', by simp, h⟩
  have hplain : '\n' ∉ [c, '\x00'] ∧ c ≠ '\x00' ∧ c ≠ '\n' ∧ c ≠ ',' ∧ isBlank c = false := by
    simp only [List.mem_cons, List.not_mem_nil, or_false] at hc
    rcases hc with rfl | rfl <;> decide
  obtain ⟨hlf, hnul, -, hcomma, hblank⟩ := hplain
  let own : OwnHeaders := ⟨some [c, '\x00'], none,
    fun p hp => Option.some.inj hp ▸ hlf, fun p hp => absurd hp (by simp)⟩
  refine ⟨own, c, rfl, not_addressRight_of_forwarded [] rfl fun wr hwr => ?_⟩
  have hline : cString (forLine chain own) = "X-Forwarded-For: ".toList ++ [c] := by
    obtain ⟨t, ht⟩ : ∃ t, forLine chain own = ("X-Forwarded-For: ".toList ++ [c]) ++ '\x00' :: t :=
      ⟨_, rfl⟩
    have hfront : '\x00' ∉ "X-Forwarded-For: ".toList ++ [c] := by
      rw [List.mem_append, List.mem_singleton, not_or]
      exact ⟨by decide, Ne.symm hnul⟩
    rw [ht, cString_append_of_notMem hfront]
    exact List.append_nil _
  have hmem : '\x00' ∈ forLine chain own :=
    List.mem_append_right _ (by simp [listed, own])
  have hlines : ∀ l ∈ upgradeLines, '\x00' ∉ l := by decide
  have hval : headerValue (proxiedRequest chain upgradeFrame own) "X-Forwarded-For".toList 256 =
      some [c] := by
    have hnone : upgradeLines.findSome? (headerOf "X-Forwarded-For".toList) = none := by decide
    have hone : headerOf "X-Forwarded-For".toList ("X-Forwarded-For: ".toList ++ [c]) =
        some [c] := by
      rw [headerOf_for]
      simp [trimBlanks, hblank, List.rdropWhile]
    have hcut : cutLines (requestLines chain upgradeFrame own) =
        upgradeLines ++ [cString (forLine chain own)] := by
      have hreq : requestLines chain upgradeFrame own =
          upgradeLines ++ forLine chain own :: [protoLine chain own] := rfl
      rw [hreq, cutLines_append hlines, cutLines, if_pos hmem]
    rw [headerValue, crlfLines_proxiedRequest, hcut, List.findSome?_append, hnone, Option.none_or,
      hline, List.findSome?_cons, hone]
    rfl
  have hwalk : wsForwardedClient ipMaskMatch globs [c] 64 = some [c] := by
    have hsplit : [c].splitOnP (· == ',') = [[c]] :=
      List.splitOnP_eq_singleton fun d hd => by
        rw [List.mem_singleton.mp hd]
        exact beq_eq_false_iff_ne.mpr hcomma
    have hclip : clip 256 [c] = [c] := rfl
    rw [wsForwardedClient, hclip, hsplit]
    simp [forwardedWalk, listEntry, hblank, clip]
  rw [(wsParseRequest_some hwr).1, hval]
  exact fun h => hne (h.symm.trans hwalk)

/-- A plain upgrade request with a NUL in one more line. -/
def nulFrame : RequestFrame where
  front := upgradeLines ++ ["X-Note: \x00".toList]
  between := []
  back := []
  other := by decide
  protoFirst := false

/-- Nor is any address found behind a NUL in another line. -/
theorem nulFrame_not_addressRight (chain : ProxyChain (trustedProxy ipMaskMatch globs))
    (own : OwnHeaders) : ¬ AddressRight ipMaskMatch globs chain nulFrame own := by
  refine not_addressRight_of_forwarded ["X-Note: \x00".toList] rfl fun wr hwr h => ?_
  have hcut : cutLines (requestLines chain nulFrame own) = upgradeLines ++ ["X-Note: ".toList] := by
    have hreq : requestLines chain nulFrame own = upgradeLines ++
        "X-Note: \x00".toList :: [forLine chain own, protoLine chain own] := rfl
    have hlines : ∀ l ∈ upgradeLines, '\x00' ∉ l := by decide
    rw [hreq, cutLines_append hlines, cutLines, if_pos (by decide)]
    rfl
  have hval : ∀ name ∈ ["X-Forwarded-For".toList, "X-Real-IP".toList],
      headerValue (proxiedRequest chain nulFrame own) name 256 = none := by
    have hnone : ∀ name ∈ ["X-Forwarded-For".toList, "X-Real-IP".toList],
        (upgradeLines ++ ["X-Note: ".toList]).findSome? (headerOf name) = none := by decide
    intro name hname
    rw [headerValue, crlfLines_proxiedRequest, hcut, hnone name hname]
    rfl
  obtain ⟨real, hmem, ht⟩ := chain.client
  have hsome : chain.realClient.isSome = true :=
    List.find?_isSome.mpr ⟨real, List.mem_reverse.mpr hmem, by rw [ht]; rfl⟩
  rw [(wsParseRequest_some hwr).1, hval _ (by simp), hval _ (by simp)] at h
  have hempty : wsForwardedClient ipMaskMatch globs [] 64 = none := rfl
  rw [← h, Option.none_or, Option.getD_none, hempty] at hsome
  exact absurd hsome (by decide)

theorem splitOnP_of_seps {p : Char → Bool} : ∀ {r : Text}, (∀ c ∈ r, p c = true) →
    ∀ t ∈ r.splitOnP p, t = []
  | [], _, t, ht => by simpa using ht
  | c :: r, h, t, ht => by
    rw [← List.nil_append (c :: r), List.splitOnP_append_cons _ _ (h c List.mem_cons_self)] at ht
    rcases List.mem_append.mp ht with ht | ht
    · simpa using ht
    · exact splitOnP_of_seps (fun x hx => h x (List.mem_cons_of_mem _ hx)) t ht

/-- A word and separators after it are one token. -/
theorem strtokAny_seps {seps : List Char} {w : Text} (hw : ∀ c ∈ w, decide (c ∈ seps) = false)
    {r : Text} (hr : ∀ c ∈ r, c ∈ seps) {t : Text} (ht : t ∈ strtokAny seps (w ++ r)) : t = w := by
  obtain ⟨hm, hne⟩ := List.mem_filter.mp ht
  cases r with
  | nil =>
    rw [List.append_nil, List.splitOnP_eq_singleton hw] at hm
    exact List.mem_singleton.mp hm
  | cons c r =>
    rw [List.splitOnP_append_cons_of_forall_mem hw c (by simp [hr c List.mem_cons_self])] at hm
    rcases List.mem_cons.mp hm with hm | hm
    · exact hm
    · have hnil := splitOnP_of_seps
        (fun x hx => by simp [hr x (List.mem_cons_of_mem _ hx)]) t hm
      exact absurd hnil (by simpa using hne)

/-- "https" and so many commas that the buffer loses the scheme that the proxy appended. -/
theorem exists_not_schemeRight {real : Text} (hr : AddressText real)
    (ht : trustedProxy ipMaskMatch globs real = false) {m : Nat} (hm : 67 ≤ m) :
    ∃ own, SchemeWhole own ∧ (protoValue (oneProxy real hr ht .http) own).length = m ∧
      ¬ SchemeRight ipMaskMatch globs (oneProxy real hr ht .http) upgradeFrame own := by
  obtain ⟨k, hk⟩ : ∃ k, m = 5 + k + 2 + 4 := ⟨m - 11, by omega⟩
  have hlf : '\n' ∉ "https".toList ++ List.replicate k ',' := by
    simp [List.mem_replicate]
  have hword : ListWord "https".toList := Scheme.https.listWord
  let own : OwnHeaders := ⟨none, some ("https".toList ++ List.replicate k ','),
    fun p hp => absurd hp (by simp), fun p hp => Option.some.inj hp ▸ hlf⟩
  have hvalue : protoValue (oneProxy real hr ht .http) own =
      listed (some ("https".toList ++ List.replicate k ',')) ["http".toList] := by
    refine (trimBlanks_listed _ (List.cons_ne_nil _ _) fun w hw => ?_).trans ?_
    · exact List.mem_singleton.mp hw ▸ Scheme.http.listWord
    · simp only [own, Option.map_some, dropWhile_of_word hword]
      rfl
  have hcut : clip 64 (protoValue (oneProxy real hr ht .http) own) =
      "https".toList ++ (List.replicate k ',' ++ [',', ' ']).take 58 := by
    have hlist : listed (some ("https".toList ++ List.replicate k ',')) ["http".toList] =
        "https".toList ++ ((List.replicate k ',' ++ [',', ' ']) ++ "http".toList) := by
      simp [listed]
    rw [hvalue, hlist, clip, List.take_append, List.take_of_length_le (by decide)]
    congr 1
    refine List.take_append_of_le_length ?_
    simp only [List.length_append, List.length_replicate, List.length_cons, List.length_nil]
    have h5 : "https".toList.length = 5 := rfl
    omega
  have hnul : ∀ p ∈ own.protos, '\x00' ∉ p := by
    intro p hp
    rw [← Option.some.inj hp]
    simp [List.mem_replicate]
  refine ⟨own, hnul, ?_, fun hright => ?_⟩
  · rw [hvalue, length_listed_one, List.length_append, List.length_replicate]
    have h5 : "https".toList.length = 5 := rfl
    have h4 : "http".toList.length = 4 := rfl
    omega
  · obtain ⟨wr, hwr⟩ := exists_wsParseRequest (oneProxy real hr ht .http) own
      [] upgradeFrame_front
    have hval := headerValue_proto (oneProxy real hr ht .http) upgradeFrame own hnul 64
    rw [if_pos (beforeProto_upgrade _ fun p hp => absurd hp (by simp [own]))] at hval
    have hsec : wr.https = true := by
      rw [(wsParseRequest_some hwr).2, hval, Option.getD_some, hcut]
      refine ⟨by simp, fun t htok => ?_⟩
      have hseps : ∀ c ∈ (List.replicate k ',' ++ [',', ' ']).take 58, c ∈ [',', ' ', '\t'] := by
        intro c hc
        have := List.mem_of_mem_take hc
        simp [List.mem_replicate] at this ⊢
        tauto
      rw [strtokAny_seps (sep_notMem_of_word hword) hseps htok]
      exact caseEq_refl _
    exact absurd (hright wr hwr hsec .http (List.mem_singleton_self _)) (by decide)

/-- "https" and a NUL hide a first hop that was not secure. -/
theorem exists_nul_not_schemeRight (chain : ProxyChain (trustedProxy ipMaskMatch globs))
    (hhttp : .http ∈ chain.schemes) : ∃ own, own.protos = some "https\x00".toList ∧
      ¬ SchemeRight ipMaskMatch globs chain upgradeFrame own := by
  let own : OwnHeaders := ⟨none, some "https\x00".toList, fun p hp => absurd hp (by simp),
    fun p hp => Option.some.inj hp ▸ by decide⟩
  refine ⟨own, rfl, fun hright => ?_⟩
  obtain ⟨wr, hwr⟩ := exists_wsParseRequest chain own [] upgradeFrame_front
  have hline : cString (protoLine chain own) = "X-Forwarded-Proto: https".toList := by
    have hsplit : protoLine chain own = "X-Forwarded-Proto: ".toList ++ ("https\x00".toList ++
        (chain.schemes.map Scheme.text).flatMap fun w => ',' :: ' ' :: w) := rfl
    rw [hsplit, ← List.append_assoc, cString_append_of_mem (by decide)]
    decide
  have hval : headerValue (proxiedRequest chain upgradeFrame own) "X-Forwarded-Proto".toList 64 =
      some "https".toList := by
    have hlines : ∀ l ∈ upgradeLines, '\x00' ∉ l := by decide
    have hfor : '\x00' ∉ forLine chain own :=
      forLine_notMem chain own (Or.inr rfl) fun p hp => absurd hp (by simp [own])
    have hmem : '\x00' ∈ protoLine chain own :=
      List.mem_append_right _ (by simp [listed, own])
    have hnone : upgradeLines.findSome? (headerOf "X-Forwarded-Proto".toList) = none := by decide
    have hcut : cutLines (requestLines chain upgradeFrame own) =
        upgradeLines ++ [forLine chain own, "X-Forwarded-Proto: https".toList] := by
      have hreq : requestLines chain upgradeFrame own =
          upgradeLines ++ [forLine chain own, protoLine chain own] := rfl
      rw [hreq, cutLines_append hlines, cutLines, if_neg hfor, cutLines, if_pos hmem, hline]
    have hother : headerOf "X-Forwarded-Proto".toList (forLine chain own) = none :=
      headerOf_proto_for _
    rw [headerValue, crlfLines_proxiedRequest, hcut, List.findSome?_append, hnone, Option.none_or,
      List.findSome?_cons, hother]
    decide
  have hsec : wr.https = true := by
    rw [(wsParseRequest_some hwr).2, hval]
    decide
  exact absurd (hright wr hwr hsec .http hhttp) (by decide)

end Exceeds

/-! ## 8. The two bounds

What a value is right for is said of its kind: its length, and whether a NUL hides a part of it.  No
kind outside the bounds is right throughout, and behind a NUL the client has its choice whatever
proxies it came through. -/

/-- **The proxies' word counts as long as it is seen.**  Without a NUL before its end an address is
right, whatever the client sends, for a value of up to 255 bytes, and a scheme, without one in the
client's part of it, for a value of up to 66; a client can bring the values to any greater length,
and then choose.

With a NUL it chooses behind any proxies: two bytes in front of their addresses are enough, or a NUL
in another line, and `https` with a NUL behind it in front of their schemes. -/
theorem forwarded_exact (ipMaskMatch : Text → Text → Bool) (globs : List Text)
    (h : ∃ a, AddressText a ∧ trustedProxy ipMaskMatch globs a = false) :
    (∀ n, (∀ chain frame own, AddressWhole frame own → (addressValue chain own).length = n →
      AddressRight ipMaskMatch globs chain frame own) ↔ n < 256) ∧
    (∀ m, (∀ chain frame own, SchemeWhole own → (protoValue chain own).length = m →
      SchemeRight ipMaskMatch globs chain frame own) ↔ m < 67) ∧
    (∀ chain, ∃ own c, own.addresses = some [c, '\x00'] ∧
      ¬ AddressRight ipMaskMatch globs chain upgradeFrame own) ∧
    (∃ frame, ¬ (∀ l ∈ frame.front, '\x00' ∉ l) ∧
      ∀ chain own, ¬ AddressRight ipMaskMatch globs chain frame own) ∧
    ∀ chain, .http ∈ chain.schemes → ∃ own, own.protos = some "https\x00".toList ∧
      ¬ SchemeRight ipMaskMatch globs chain upgradeFrame own := by
  obtain ⟨real, hr, ht⟩ := h
  refine ⟨fun n => ⟨fun hall => ?_, fun hn chain frame own hwhole hlen => ?_⟩,
    fun m => ⟨fun hall => ?_, fun hm chain frame own hwhole hlen => ?_⟩,
    exists_nul_not_addressRight, ⟨nulFrame, by decide, nulFrame_not_addressRight⟩,
    exists_nul_not_schemeRight⟩
  · by_contra hn
    obtain ⟨own, hwhole, hlen, hnot⟩ := exists_not_addressRight hr ht (not_lt.mp hn)
    exact hnot (hall _ _ own hwhole hlen)
  · exact addressRight_of_fits chain frame own hwhole (hlen.trans_lt hn)
  · by_contra hm
    obtain ⟨own, hwhole, hlen, hnot⟩ := exists_not_schemeRight hr ht (not_lt.mp hm)
    exact hnot (hall _ _ own hwhole hlen)
  · exact schemeRight_of_fits chain frame own hwhole (hlen.trans_lt hm)

theorem forwarded_exact_one :
    (∀ chain frame own, AddressWhole frame own → (addressValue chain own).length = 255 →
      AddressRight caseEq ["10.0.0.1".toList] chain frame own) ∧
    ¬ (∀ chain frame own, AddressWhole frame own → (addressValue chain own).length = 256 →
      AddressRight caseEq ["10.0.0.1".toList] chain frame own) := by
  obtain ⟨haddress, -⟩ :=
    forwarded_exact caseEq ["10.0.0.1".toList] ⟨"198.51.100.4".toList, by decide, by decide⟩
  exact ⟨(haddress 255).mpr (by decide), fun hall => absurd ((haddress 256).mp hall) (by decide)⟩

/-- The proxies behind which the client of `forwarded_chosen` sits. -/
def seenBy : ProxyChain (trustedProxy caseEq ["10.0.0.1".toList]) where
  hops := ["198.51.100.4".toList, "10.0.0.1".toList]
  address := by decide
  client := ⟨"198.51.100.4".toList, by decide, by decide⟩
  schemes := [.http, .https]
  reached := by decide

/-- Two requests that differ in what the client put into the headers, seen from two addresses,
and the second one secure though its first hop was not. -/
theorem forwarded_chosen :
    ¬ (∀ own own' wr wr',
      wsParseRequest (proxiedRequest seenBy upgradeFrame own) = some wr →
      wsParseRequest (proxiedRequest seenBy upgradeFrame own') = some wr' →
      wsForwardedClient caseEq ["10.0.0.1".toList] wr.forwarded 64 =
        wsForwardedClient caseEq ["10.0.0.1".toList] wr'.forwarded 64 ∧
      (wr'.https = true → ∀ s ∈ seenBy.schemes, s = .https)) := by
  intro h
  let own : OwnHeaders := ⟨none, none, by simp, by simp⟩
  let own' : OwnHeaders := ⟨some ("203.0.113.9".toList ++ List.replicate 260 ' '),
    some ("https".toList ++ List.replicate 70 ','), by decide +kernel, by decide +kernel⟩
  obtain ⟨wr, hwr⟩ := exists_wsParseRequest seenBy own [] upgradeFrame_front
  obtain ⟨wr', hwr'⟩ := exists_wsParseRequest seenBy own' [] upgradeFrame_front
  have hf := (h own own' wr wr' hwr hwr').1
  have hwhole : AddressWhole upgradeFrame own := addressWhole_upgrade (by decide)
  have hwhole' : AddressWhole upgradeFrame own' := addressWhole_upgrade (by decide +kernel)
  rw [forwarded_of_whole hwhole hwr, forwarded_of_whole hwhole' hwr'] at hf
  revert hf
  decide +kernel

end SekurIRCd
