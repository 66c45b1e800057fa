/-
# Netsplit and netjoin batches

The QUITs of a netsplit and the JOINs of a burst are sent in IRCv3 batches.  A batch is opened
for each client with its first line, which the client's mark records, and closed for those whose
mark says that they have seen it opened.  There is one slot for either kind, and a second link
that bursts takes the netjoin slot over from the first.

`batches_well_formed` is about any run of links and clients: in what a client has been sent,
every line of a batch stands behind exactly one opening and before the closing, a closing stands
behind an opening, and what has been opened is closed as soon as no link that is in its burst
holds the slot.

Which clients a line goes to, and what it says, is left to the caller of `server_fbatch_send`,
and lines that are held for a labelled response count as sent, in their order.
-/
import SekurIRCd.Proto
import Mathlib.Logic.Function.Basic

namespace SekurIRCd

open CLib

/-! ## 1. Batches

A slot of the server has the generation of its batch, and a client has for each slot the generation
that it has seen opened. A line is kept as what it is, so that a log can be searched for openings
and closings. -/

/-- `FB_NETSPLIT` and `FB_NETJOIN`. -/
inductive FbSlot
  | netsplit | netjoin
deriving DecidableEq, Repr

/-- `srv->fb[slot]`. Its generation is given out once, and stands for the batch while
that is open. -/
structure FBatch where
  active : Bool
  gen : Nat
  id : Text
  type : Text
  a : Text
  b : Text
deriving DecidableEq

/-- The id of a batch. -/
def batchId (slot : FbSlot) (seq : Nat) : Text :=
  (match slot with
    | .netsplit => ['n', 's']
    | .netjoin => ['n', 'j']) ++ decimal seq

/-- A line as a client is sent it. -/
inductive Sent
  | batchOpen (id type a b : Text)
  | batched (id line : Text)
  | batchClose (id : Text)
  | line (text : Text)
deriving DecidableEq

/-- Its text. -/
def Sent.text (name : Text) : Sent → Text
  | .batchOpen id type a b =>
    (ircBuild 400 [] (some name) "BATCH".toList ['+' :: id, type, a, b] none).text
  | .batched id ('@' :: tags) => clip 1100 ("@batch=".toList ++ id ++ ';' :: tags)
  | .batched id words => clip 1100 ("@batch=".toList ++ id ++ ' ' :: words)
  | .batchClose id => (ircBuild 100 [] (some name) "BATCH".toList ['-' :: id] none).text
  | .line words => words

/-- A connection, as far as batches are concerned.  `timeTag` is the length of the time tag that
its lines get, `pending` what is queued. -/
structure Listener where
  connId : Nat
  fbMark : FbSlot → Nat
  batch : Bool
  timeTag : Nat
  pending : Nat
  sendqMax : Nat
  quitting : Bool
  sent : List Sent

/-- `client_send`. -/
def clientSend (name : Text) (c : Listener) (o : Sent) : Listener :=
  if c.quitting then c
  else
    let total := (o.text name).length + c.timeTag + 2
    if c.sendqMax < c.pending + total then { c with quitting := true }
    else { c with pending := c.pending + total, sent := c.sent ++ [o] }

/-- The server's side of it: its connections, its slots and the links to other servers. -/
structure Fanout where
  name : Text
  allClients : List Listener
  connSeq : Nat
  fb : FbSlot → FBatch
  fbCur : Option FbSlot
  fbSeq : Nat
  netjoinLc : Option Nat
  links : List Nat

/-- `server_fbatch_end`. -/
def serverFbatchEnd (s : Fanout) (slot : FbSlot) : Fanout :=
  let f := s.fb slot
  if f.active = false then s
  else
    { s with
      fb := Function.update s.fb slot { f with active := false }
      allClients := s.allClients.map fun c =>
        if c.fbMark slot = f.gen then clientSend s.name c (.batchClose f.id) else c }

/-- `server_fbatch_begin`. -/
def serverFbatchBegin (s : Fanout) (slot : FbSlot) (type a b : Text) : Fanout :=
  let s := serverFbatchEnd s slot
  { s with
    fbSeq := s.fbSeq + 1
    fb := Function.update s.fb slot
      { active := true, gen := s.fbSeq + 1, id := batchId slot (s.fbSeq + 1), type := clip 12 type,
        a := clip 128 a, b := clip 128 b } }

/-- `server_fbatch_send`, on the client's side. Who has not seen the batch opened is sent the
opening first, and the mark is set with it. -/
def fbatchSend (name : Text) (fb : FbSlot → FBatch) (cur : Option FbSlot) (c : Listener)
    (line : Text) : Listener :=
  match cur with
  | none => clientSend name c (.line line)
  | some slot =>
    let f := fb slot
    if f.active = false ∨ c.batch = false then clientSend name c (.line line)
    else
      let c :=
        if c.fbMark slot = f.gen then c
        else clientSend name { c with fbMark := Function.update c.fbMark slot f.gen }
          (.batchOpen f.id f.type f.a f.b)
      clientSend name c (.batched f.id line)

/-- A line for one client: through `server_fbatch_send`, or through `client_send` as it is. -/
structure Notice where
  client : Nat
  fbatch : Bool
  line : Text

/-- Sending it. -/
def Fanout.tell (s : Fanout) (n : Notice) : Fanout :=
  { s with
    allClients := s.allClients.map fun c =>
      if c.connId = n.client then
        if n.fbatch then fbatchSend s.name s.fb s.fbCur c n.line else clientSend s.name c (.line n.line)
      else c }

def Fanout.tellAll (s : Fanout) (ns : List Notice) : Fanout := ns.foldl Fanout.tell s

/-! ## 2. Links -/

/-- `netsync_link_up`. -/
def Fanout.netsyncLinkUp (s : Fanout) (lc : Nat) (name : Text) : Fanout :=
  { serverFbatchBegin s .netjoin "netjoin".toList s.name name with
    netjoinLc := some lc, links := lc :: s.links }

/-- `remove_server_tree`: `up` and `root` name the two servers, and `quits` are the lines of
`server_remove_client` for the users behind `root`. -/
def Fanout.removeServerTree (s : Fanout) (up root : Text) (quits : List Notice) : Fanout :=
  let s := serverFbatchBegin s .netsplit "netsplit".toList up root
  let prev := s.fbCur
  let s := Fanout.tellAll { s with fbCur := some .netsplit } quits
  serverFbatchEnd { s with fbCur := prev } .netsplit

/-- `netsync_link_down`, when the link is reaped. -/
def Fanout.netsyncLinkDown (s : Fanout) (lc : Nat) (root : Text) (quits : List Notice) : Fanout :=
  let s := if s.netjoinLc = some lc then { serverFbatchEnd s .netjoin with netjoinLc := none } else s
  Fanout.removeServerTree { s with links := s.links.filter (· ≠ lc) } s.name root quits

/-- `netsync_handle`, for SJOIN and JOIN. -/
def Fanout.handleJoins (s : Fanout) (lc : Nat) (joins : List Notice) : Fanout :=
  let prev := s.fbCur
  let s := if s.netjoinLc = some lc then { s with fbCur := some .netjoin } else s
  { s.tellAll joins with fbCur := prev }

/-- `netsync_handle`, for EOB. -/
def Fanout.handleEob (s : Fanout) (lc : Nat) : Fanout :=
  if s.netjoinLc = some lc then { serverFbatchEnd s .netjoin with netjoinLc := none } else s

/-! ## 3. Runs -/

/-- What happens: to the clients, to the links, and lines of any other origin. A link that comes up
brings a netjoin, and one that goes a netsplit, each as a batch of notices. -/
inductive FanEvent
  | connect (sendqMax : Nat)
  | cap (connId : Nat) (batch : Bool) (timeTag : Nat)
  | write (connId n : Nat)
  | markQuit (connId : Nat)
  | remove (connId : Nat)
  | other (notices : List Notice)
  | linkUp (lc : Nat) (name : Text)
  | joins (lc : Nat) (notices : List Notice)
  | eob (lc : Nat)
  | squit (lc : Nat) (up root : Text) (quits : List Notice)
  | linkDown (lc : Nat) (root : Text) (quits : List Notice)

/-- Changing one connection. -/
def Fanout.onConn (s : Fanout) (connId : Nat) (f : Listener → Listener) : Fanout :=
  { s with allClients := s.allClients.map fun c => if c.connId = connId then f c else c }

/-- One event.  Lines of a link that is not there are not read. -/
def fanStep (s : Fanout) : FanEvent → Fanout
  | .connect sendqMax =>
    { s with
      connSeq := s.connSeq + 1
      allClients := { connId := s.connSeq + 1, fbMark := fun _ => 0, batch := false, timeTag := 0
                      pending := 0, sendqMax := sendqMax, quitting := false, sent := [] } ::
        s.allClients }
  | .cap connId batch timeTag =>
    s.onConn connId fun c => { c with batch := batch, timeTag := timeTag }
  | .write connId n => s.onConn connId fun c => { c with pending := c.pending - n }
  | .markQuit connId => s.onConn connId fun c => { c with quitting := true }
  | .remove connId => { s with allClients := s.allClients.filter fun c => c.connId ≠ connId }
  | .other notices => s.tellAll notices
  | .linkUp lc name => if lc ∈ s.links then s else Fanout.netsyncLinkUp s lc name
  | .joins lc notices => if lc ∈ s.links then Fanout.handleJoins s lc notices else s
  | .eob lc => if lc ∈ s.links then Fanout.handleEob s lc else s
  | .squit lc up root quits => if lc ∈ s.links then Fanout.removeServerTree s up root quits else s
  | .linkDown lc root quits => if lc ∈ s.links then Fanout.netsyncLinkDown s lc root quits else s

/-- A server that has just started. -/
def Fanout.start (name : Text) : Fanout where
  name := name
  allClients := []
  connSeq := 0
  fb := fun _ => ⟨false, 0, [], [], [], []⟩
  fbCur := none
  fbSeq := 0
  netjoinLc := none
  links := []

/-- A run. -/
def fanRun (name : Text) (evs : List FanEvent) : Fanout := evs.foldl fanStep (Fanout.start name)

/-! ## 4. Well-formed batches -/

/-- The line opens the batch. -/
def Sent.opens (id : Text) : Sent → Bool
  | .batchOpen i _ _ _ => decide (i = id)
  | _ => false

/-- How often a batch has been opened. -/
def opened (log : List Sent) (id : Text) : Nat := log.countP (Sent.opens id)

/-- **A line may be sent behind what has been sent**: no batch is opened twice, and its lines and
its closing come behind its opening and before its closing. -/
def Follows (pre : List Sent) : Sent → Prop
  | .batchOpen id _ _ _ => opened pre id = 0
  | .batched id _ => opened pre id = 1 ∧ .batchClose id ∉ pre
  | .batchClose id => opened pre id = 1 ∧ .batchClose id ∉ pre
  | .line _ => True

/-- Every line may be sent where it is: a line of a batch between the opening and the closing of
that batch, and neither of these twice. -/
def WellBatched (log : List Sent) : Prop := ∀ pre o post, log = pre ++ o :: post → Follows pre o

theorem opened_append (log : List Sent) (o : Sent) (id : Text) :
    opened (log ++ [o]) id = opened log id + if o.opens id then 1 else 0 := by
  rw [opened, List.countP_append, List.countP_singleton]
  rfl

theorem WellBatched.append {log : List Sent} (h : WellBatched log) {o : Sent} (ho : Follows log o) :
    WellBatched (log ++ [o]) := by
  intro pre x post heq
  rcases List.eq_nil_or_concat post with rfl | ⟨post, y, rfl⟩
  · obtain ⟨rfl, hx⟩ := List.append_inj' heq rfl
    obtain rfl := (List.cons.inj hx).1
    exact ho
  · have hsplit : log ++ [o] = (pre ++ x :: post) ++ [y] := by rw [heq]; simp
    obtain ⟨rfl, -⟩ := List.append_inj' hsplit rfl
    exact h pre x post rfl

theorem WellBatched.opened_of_close {log : List Sent} (h : WellBatched log) {id : Text}
    (hc : .batchClose id ∈ log) : 0 < opened log id := by
  obtain ⟨pre, post, rfl⟩ := List.append_of_mem hc
  have hone := (h pre _ post rfl).1
  rw [opened, List.countP_append]
  rw [opened] at hone
  omega

theorem batchId_inj {slot slot' : FbSlot} {g g' : Nat} (h : batchId slot g = batchId slot' g') :
    slot = slot' ∧ g = g' := by
  have hdec : ∀ {m n : Nat}, decimal m = decimal n → m = n := by
    intro m n hmn
    have := congrArg (Nat.ofDigitChars 10 · 0) hmn
    simpa only [decimal, Nat.ofDigitChars_toDigits (b := 10) (by decide) (le_refl _)] using this
  cases slot <;> cases slot' <;> simp only [batchId, List.cons_append, List.nil_append,
    List.cons.injEq, true_and] at h
  · exact ⟨rfl, hdec h⟩
  · exact absurd h.1 (by decide)
  · exact absurd h.1 (by decide)
  · exact ⟨rfl, hdec h⟩

/-! ## 5. Marks and generations

The mark is right as long as every opening sets it and every closing clears it, and nobody else's
batch has its generation. -/

/-- The slots: their generations have been given out, and an open batch is called by its own. -/
def SlotsOk (fb : FbSlot → FBatch) (seq : Nat) : Prop :=
  ∀ slot, (fb slot).gen ≤ seq ∧ ((fb slot).active = true →
    (fb slot).id = batchId slot (fb slot).gen ∧ 0 < (fb slot).gen)

/-- **What a client's mark says**: it has seen the open batch opened exactly when it carries the
batch's generation. One that is being disconnected is sent nothing more. -/
structure ListenerOk (fb : FbSlot → FBatch) (seq : Nat) (c : Listener) : Prop where
  well : WellBatched c.sent
  known : ∀ id, 0 < opened c.sent id → ∃ slot g, id = batchId slot g ∧ g ≤ seq
  mark : ∀ slot, c.fbMark slot ≤ seq
  live : c.quitting = false → ∀ slot, (fb slot).active = true →
    opened c.sent (fb slot).id = (if c.fbMark slot = (fb slot).gen then 1 else 0) ∧
      .batchClose (fb slot).id ∉ c.sent
  closed : c.quitting = false → ∀ id, 0 < opened c.sent id →
    .batchClose id ∈ c.sent ∨ ∃ slot, (fb slot).active = true ∧ id = (fb slot).id

/-- `client_send` sends the line, or leaves the client without it and disconnecting. -/
theorem clientSend_cases (name : Text) (c : Listener) (o : Sent) :
    (c.quitting = false ∧ ∃ n, clientSend name c o = { c with pending := n, sent := c.sent ++ [o] }) ∨
      clientSend name c o = { c with quitting := true } := by
  unfold clientSend
  split
  · rename_i hq
    right
    rw [← hq]
  · rename_i hq
    simp only
    split
    · exact Or.inr rfl
    · exact Or.inl ⟨by simpa using hq, _, rfl⟩

section Step

variable {fb : FbSlot → FBatch} {seq : Nat} {c : Listener}

theorem ListenerOk.quit (h : ListenerOk fb seq c) : ListenerOk fb seq { c with quitting := true } :=
  ⟨h.well, h.known, h.mark, fun hq => absurd hq (by simp), fun hq => absurd hq (by simp)⟩

theorem ListenerOk.send (h : ListenerOk fb seq c) {o : Sent} (name : Text)
    (ho : c.quitting = false → Follows c.sent o) (hopen : ∀ id, o.opens id = false)
    (hclose : ∀ id, o ≠ .batchClose id) : ListenerOk fb seq (clientSend name c o) := by
  rcases clientSend_cases name c o with ⟨hq, n, he⟩ | he
  · rw [he]
    have hcount : ∀ id, opened (c.sent ++ [o]) id = opened c.sent id := by
      intro id
      rw [opened_append, hopen id]
      rfl
    have hmem : ∀ id, .batchClose id ∈ c.sent ++ [o] ↔ .batchClose id ∈ c.sent := by
      intro id
      simp [(hclose id).symm]
    refine ⟨h.well.append (ho hq), ?_, h.mark, ?_, ?_⟩
    · simpa only [hcount] using h.known
    · simpa only [hcount, hmem] using h.live
    · simpa only [hcount, hmem] using h.closed
  · rw [he]
    exact h.quit

theorem ListenerOk.line (h : ListenerOk fb seq c) (name line : Text) :
    ListenerOk fb seq (clientSend name c (.line line)) :=
  h.send name (fun _ => trivial) (fun _ => rfl) fun _ => by simp

/-- The opening of the batch in a slot, with the mark. -/
theorem ListenerOk.opening (h : ListenerOk fb seq c) (hfb : SlotsOk fb seq) (name : Text)
    {slot : FbSlot} (hact : (fb slot).active = true) (hmark : c.fbMark slot ≠ (fb slot).gen)
    (type a b : Text) :
    ListenerOk fb seq (clientSend name
      { c with fbMark := Function.update c.fbMark slot (fb slot).gen }
      (.batchOpen (fb slot).id type a b)) := by
  have hmarks : ∀ x, Function.update c.fbMark slot (fb slot).gen x ≤ seq := by
    intro x
    by_cases hx : x = slot
    · rw [hx, Function.update_self]
      exact (hfb slot).1
    · rw [Function.update_of_ne hx]
      exact h.mark x
  rcases clientSend_cases name { c with fbMark := Function.update c.fbMark slot (fb slot).gen }
    (.batchOpen (fb slot).id type a b) with ⟨hq, n, he⟩ | he
  · rw [he]
    have hzero := (h.live hq slot hact).1
    rw [if_neg hmark] at hzero
    have hid := ((hfb slot).2 hact).1
    have hcount : ∀ id, opened (c.sent ++ [.batchOpen (fb slot).id type a b]) id =
        opened c.sent id + if (fb slot).id = id then 1 else 0 := by
      intro id
      rw [opened_append]
      simp [Sent.opens]
    refine ⟨h.well.append hzero, ?_, hmarks, ?_, ?_⟩
    · intro id hpos
      by_cases hi : (fb slot).id = id
      · exact ⟨slot, (fb slot).gen, hi ▸ hid, (hfb slot).1⟩
      · simp only [hcount, if_neg hi, Nat.add_zero] at hpos
        exact h.known id hpos
    · intro _ x hx
      have hlive := h.live hq x hx
      simp only [hcount]
      by_cases hxs : x = slot
      · subst hxs
        exact ⟨by simp [hzero], by simpa using hlive.2⟩
      · have hne : (fb slot).id ≠ (fb x).id := by
          intro e
          rw [hid, ((hfb x).2 hx).1] at e
          exact hxs (batchId_inj e).1.symm
        exact ⟨by simpa [hne, Function.update_of_ne hxs] using hlive.1, by simpa using hlive.2⟩
    · intro _ id hpos
      by_cases hi : (fb slot).id = id
      · exact Or.inr ⟨slot, hact, hi.symm⟩
      · simp only [hcount, if_neg hi, Nat.add_zero] at hpos
        rcases h.closed hq id hpos with hc | hc
        · exact Or.inl (by simpa using hc)
        · exact Or.inr hc
  · rw [he]
    exact ⟨h.well, h.known, hmarks, fun hq => absurd hq (by simp), fun hq => absurd hq (by simp)⟩

/-- **`server_fbatch_send` keeps the marks true.** -/
theorem ListenerOk.fbatchSend (h : ListenerOk fb seq c) (hfb : SlotsOk fb seq) (name : Text)
    (cur : Option FbSlot) (line : Text) :
    ListenerOk fb seq (fbatchSend name fb cur c line) := by
  unfold SekurIRCd.fbatchSend
  split
  · exact h.line name line
  · rename_i slot
    simp only
    split
    · exact h.line name line
    · rename_i hact
      rw [not_or, Bool.not_eq_false] at hact
      split
      · rename_i hmark
        refine h.send name (fun hq => ?_) (fun _ => rfl) fun _ => by simp
        have hlive := h.live hq slot hact.1
        rw [if_pos hmark] at hlive
        exact hlive
      · rename_i hmark
        have hopen := h.opening hfb name hact.1 hmark (fb slot).type (fb slot).a (fb slot).b
        refine hopen.send name (fun hq => ?_) (fun _ => rfl) fun _ => by simp
        have hlive := hopen.live hq slot hact.1
        have hself : (clientSend name
            { c with fbMark := Function.update c.fbMark slot (fb slot).gen }
            (.batchOpen (fb slot).id (fb slot).type (fb slot).a (fb slot).b)).fbMark slot =
            (fb slot).gen := by
          unfold clientSend
          simp only
          split
          · exact Function.update_self ..
          · split <;> exact Function.update_self ..
        rw [if_pos hself] at hlive
        exact hlive

/-- **`server_fbatch_end` closes the batch for those who saw it opened.** -/
theorem ListenerOk.fbatchEnd (h : ListenerOk fb seq c) (hfb : SlotsOk fb seq) (name : Text)
    {slot : FbSlot} (hact : (fb slot).active = true) :
    ListenerOk (Function.update fb slot { fb slot with active := false }) seq
      (if c.fbMark slot = (fb slot).gen then clientSend name c (.batchClose (fb slot).id) else c) := by
  have hother : ∀ x, (Function.update fb slot { fb slot with active := false } x).active = true →
      x ≠ slot ∧ Function.update fb slot { fb slot with active := false } x = fb x := by
    intro x hx
    by_cases hxs : x = slot
    · rw [hxs, Function.update_self] at hx
      exact absurd hx (by simp)
    · exact ⟨hxs, Function.update_of_ne hxs _ _⟩
  have hkeep : ∀ {id : Text}, id ≠ (fb slot).id → (∃ x, (fb x).active = true ∧ id = (fb x).id) →
      ∃ x, (Function.update fb slot { fb slot with active := false } x).active = true ∧
        id = (Function.update fb slot { fb slot with active := false } x).id := by
    rintro id hid ⟨x, hx, rfl⟩
    have hxs : x ≠ slot := fun e => hid (by rw [e])
    exact ⟨x, by rwa [Function.update_of_ne hxs], by rw [Function.update_of_ne hxs]⟩
  split
  · rename_i hmark
    rcases clientSend_cases name c (.batchClose (fb slot).id) with ⟨hq, n, he⟩ | he
    · rw [he]
      have hlive := h.live hq slot hact
      rw [if_pos hmark] at hlive
      have hcount : ∀ id, opened (c.sent ++ [.batchClose (fb slot).id]) id = opened c.sent id := by
        intro id
        rw [opened_append]
        rfl
      refine ⟨h.well.append hlive, ?_, h.mark, ?_, ?_⟩
      · simpa only [hcount] using h.known
      · intro _ x hx
        obtain ⟨hxs, heq⟩ := hother x hx
        rw [heq] at hx ⊢
        have hx' := h.live hq x hx
        have hne : (fb x).id ≠ (fb slot).id := by
          intro e
          rw [((hfb x).2 hx).1, ((hfb slot).2 hact).1] at e
          exact hxs (batchId_inj e).1
        simp only [hcount]
        exact ⟨hx'.1, by simpa [hne] using hx'.2⟩
      · intro _ id hpos
        simp only [hcount] at hpos
        by_cases hid : id = (fb slot).id
        · exact Or.inl (by simp [hid])
        · rcases h.closed hq id hpos with hc | hc
          · exact Or.inl (List.mem_append_left _ hc)
          · exact Or.inr (hkeep hid hc)
    · rw [he]
      exact ⟨h.well, h.known, h.mark, fun hq => absurd hq (by simp), fun hq => absurd hq (by simp)⟩
  · rename_i hmark
    refine ⟨h.well, h.known, h.mark, fun hq x hx => ?_, fun hq id hpos => ?_⟩
    · obtain ⟨-, heq⟩ := hother x hx
      rw [heq] at hx ⊢
      exact h.live hq x hx
    · have hid : id ≠ (fb slot).id := by
        rintro rfl
        have hzero := (h.live hq slot hact).1
        rw [if_neg hmark] at hzero
        omega
      exact (h.closed hq id hpos).imp_right (hkeep hid)

/-- **A new batch has been opened for nobody.** -/
theorem ListenerOk.fbatchBegin (h : ListenerOk fb seq c) {slot : FbSlot}
    (hidle : (fb slot).active = false) {f : FBatch} (hgen : f.gen = seq + 1)
    (hid : f.id = batchId slot (seq + 1)) :
    ListenerOk (Function.update fb slot f) (seq + 1) c := by
  have hfresh : opened c.sent f.id = 0 := by
    by_contra hne
    obtain ⟨x, g, he, hg⟩ := h.known f.id (by omega)
    rw [hid] at he
    have := (batchId_inj he).2
    omega
  refine ⟨h.well, fun id hpos => ?_, fun x => (h.mark x).trans (by omega), fun hq x hx => ?_,
    fun hq id hpos => ?_⟩
  · obtain ⟨x, g, he, hg⟩ := h.known id hpos
    exact ⟨x, g, he, by omega⟩
  · by_cases hxs : x = slot
    · subst hxs
      rw [Function.update_self]
      have hmark := h.mark x
      rw [if_neg (by omega), hfresh]
      refine ⟨rfl, fun hc => ?_⟩
      have := h.well.opened_of_close hc
      omega
    · rw [Function.update_of_ne hxs] at hx ⊢
      exact h.live hq x hx
  · refine (h.closed hq id hpos).imp_right ?_
    rintro ⟨x, hx, rfl⟩
    have hxs : x ≠ slot := by
      rintro rfl
      rw [hidle] at hx
      exact absurd hx (by simp)
    exact ⟨x, by rwa [Function.update_of_ne hxs], by rw [Function.update_of_ne hxs]⟩

end Step

/-! ## 6. Runs

The invariant over all clients and slots, and what follows from it at the end of a burst. -/

/-- What every function above keeps. -/
structure FanOk (s : Fanout) : Prop where
  slots : SlotsOk s.fb s.fbSeq
  clients : ∀ c ∈ s.allClients, ListenerOk s.fb s.fbSeq c

theorem FanOk.tell {s : Fanout} (h : FanOk s) (n : Notice) : FanOk (s.tell n) := by
  refine ⟨h.slots, fun c hc => ?_⟩
  obtain ⟨c, hmem, rfl⟩ := List.mem_map.mp hc
  have hok := h.clients c hmem
  split
  · split
    · exact hok.fbatchSend h.slots s.name s.fbCur n.line
    · exact hok.line s.name n.line
  · exact hok

theorem FanOk.tellAll {s : Fanout} (h : FanOk s) (ns : List Notice) : FanOk (s.tellAll ns) := by
  induction ns generalizing s with
  | nil => exact h
  | cons n ns ih => exact ih (h.tell n)

theorem tellAll_frame (s : Fanout) (ns : List Notice) :
    s.tellAll ns = { s with allClients := (s.tellAll ns).allClients } := by
  induction ns generalizing s with
  | nil => rfl
  | cons n ns ih => exact ih (s.tell n)

theorem FanOk.fbatchEnd {s : Fanout} (h : FanOk s) (slot : FbSlot) :
    FanOk (serverFbatchEnd s slot) := by
  unfold serverFbatchEnd
  simp only
  split
  · exact h
  · rename_i hact
    rw [Bool.not_eq_false] at hact
    refine ⟨fun x => ?_, fun c hc => ?_⟩
    · by_cases hx : x = slot
      · subst hx
        simp only [Function.update_self]
        exact ⟨(h.slots x).1, fun he => absurd he (by simp)⟩
      · simp only [Function.update_of_ne hx]
        exact h.slots x
    · obtain ⟨c, hmem, rfl⟩ := List.mem_map.mp hc
      exact (h.clients c hmem).fbatchEnd h.slots s.name hact

/-- Behind `server_fbatch_end` the slot is closed; the rest of the server is as it was. -/
theorem fbatchEnd_frame (s : Fanout) (slot : FbSlot) :
    ((serverFbatchEnd s slot).fb slot).active = false ∧
      (∀ x, x ≠ slot → (serverFbatchEnd s slot).fb x = s.fb x) ∧
      (serverFbatchEnd s slot).fbCur = s.fbCur ∧ (serverFbatchEnd s slot).links = s.links ∧
      (serverFbatchEnd s slot).netjoinLc = s.netjoinLc := by
  unfold serverFbatchEnd
  simp only
  split
  · rename_i hact
    exact ⟨hact, fun _ _ => rfl, rfl, rfl, rfl⟩
  · exact ⟨by simp, fun x hx => Function.update_of_ne hx _ _, rfl, rfl, rfl⟩

theorem FanOk.fbatchBegin {s : Fanout} (h : FanOk s) (slot : FbSlot) (type a b : Text) :
    FanOk (serverFbatchBegin s slot type a b) := by
  have hend := h.fbatchEnd slot
  have hidle := (fbatchEnd_frame s slot).1
  refine ⟨fun x => ?_, fun c hc => (hend.clients c hc).fbatchBegin hidle rfl rfl⟩
  by_cases hx : x = slot
  · subst hx
    simp only [serverFbatchBegin, Function.update_self]
    exact ⟨le_refl _, fun _ => ⟨trivial, Nat.succ_pos _⟩⟩
  · simp only [serverFbatchBegin, Function.update_of_ne hx]
    have hslot := hend.slots x
    exact ⟨by omega, hslot.2⟩

theorem fbatchBegin_frame (s : Fanout) (slot : FbSlot) (type a b : Text) :
    ((serverFbatchBegin s slot type a b).fb slot).active = true ∧
      (∀ x, x ≠ slot → (serverFbatchBegin s slot type a b).fb x = s.fb x) ∧
      (serverFbatchBegin s slot type a b).fbCur = s.fbCur ∧
      (serverFbatchBegin s slot type a b).links = s.links ∧
      (serverFbatchBegin s slot type a b).netjoinLc = s.netjoinLc := by
  obtain ⟨-, hfb, hcur, hlinks, hlc⟩ := fbatchEnd_frame s slot
  refine ⟨by simp [serverFbatchBegin], fun x hx => ?_, hcur, hlinks, hlc⟩
  simp only [serverFbatchBegin, Function.update_of_ne hx]
  exact hfb x hx

/-- Between two events no netsplit is under way, and a netjoin belongs to a link that is up. -/
structure Between (s : Fanout) : Prop extends FanOk s where
  cur : s.fbCur = none
  netsplit : (s.fb .netsplit).active = false
  netjoin : (s.fb .netjoin).active = true ↔ s.netjoinLc.isSome = true
  bursting : ∀ lc, s.netjoinLc = some lc → lc ∈ s.links

theorem Between.onConn {s : Fanout} (h : Between s) (connId : Nat) {f : Listener → Listener}
    (hf : ∀ c, ListenerOk s.fb s.fbSeq c → ListenerOk s.fb s.fbSeq (f c)) :
    Between (s.onConn connId f) := by
  refine ⟨⟨h.slots, fun c hc => ?_⟩, h.cur, h.netsplit, h.netjoin, h.bursting⟩
  obtain ⟨c, hmem, rfl⟩ := List.mem_map.mp hc
  split
  · exact hf c (h.clients c hmem)
  · exact h.clients c hmem

theorem Between.tellAll {s : Fanout} (h : Between s) (ns : List Notice) : Between (s.tellAll ns) := by
  have hok := h.toFanOk.tellAll ns
  rw [tellAll_frame] at hok ⊢
  exact ⟨hok, h.cur, h.netsplit, h.netjoin, h.bursting⟩

theorem Between.linkUp {s : Fanout} (h : Between s) (lc : Nat) (name : Text) :
    Between (Fanout.netsyncLinkUp s lc name) := by
  have hok := h.toFanOk.fbatchBegin .netjoin "netjoin".toList s.name name
  obtain ⟨hact, hfb, hcur, hlinks, -⟩ :=
    fbatchBegin_frame s .netjoin "netjoin".toList s.name name
  refine ⟨⟨hok.slots, hok.clients⟩, hcur.trans h.cur, ?_, ?_, ?_⟩
  · simp only [Fanout.netsyncLinkUp]
    rw [hfb .netsplit (by decide)]
    exact h.netsplit
  · simp only [Fanout.netsyncLinkUp, hact, Option.isSome_some]
  · rintro x hx
    obtain rfl := Option.some.inj hx
    exact List.mem_cons_self

theorem Between.removeTree {s : Fanout} (h : Between s) (up root : Text) (quits : List Notice) :
    Between (Fanout.removeServerTree s up root quits) := by
  have hbegin := h.toFanOk.fbatchBegin .netsplit "netsplit".toList up root
  obtain ⟨-, hfb, hcur, hlinks, hlc⟩ :=
    fbatchBegin_frame s .netsplit "netsplit".toList up root
  simp only [Fanout.removeServerTree]
  generalize serverFbatchBegin s .netsplit "netsplit".toList up root = t at *
  have htell := (show FanOk { t with fbCur := some .netsplit } from
    ⟨hbegin.slots, hbegin.clients⟩).tellAll quits
  rw [tellAll_frame] at htell ⊢
  generalize (Fanout.tellAll { t with fbCur := some .netsplit } quits).allClients = cs at *
  have hend := (show FanOk { t with allClients := cs } from
    ⟨htell.slots, htell.clients⟩).fbatchEnd .netsplit
  obtain ⟨hidle, hfb', hcur', hlinks', hlc'⟩ :=
    fbatchEnd_frame { t with allClients := cs } .netsplit
  refine ⟨hend, (hcur'.trans hcur).trans h.cur, hidle, ?_, ?_⟩
  · rw [hfb' .netjoin (by decide), hlc']
    simp only
    rw [hfb .netjoin (by decide), hlc]
    exact h.netjoin
  · intro lc hx
    rw [hlc'] at hx
    rw [hlinks']
    simp only at hx ⊢
    rw [hlinks]
    exact h.bursting lc (hlc ▸ hx)

theorem Between.closeNetjoin {s : Fanout} (h : Between s) :
    Between { serverFbatchEnd s .netjoin with netjoinLc := none } := by
  have hok := h.toFanOk.fbatchEnd .netjoin
  obtain ⟨hidle, hfb, hcur, hlinks, -⟩ := fbatchEnd_frame s .netjoin
  refine ⟨⟨hok.slots, hok.clients⟩, hcur.trans h.cur, ?_, ?_, fun lc hx => absurd hx (by simp)⟩
  · simp only
    rw [hfb .netsplit (by decide)]
    exact h.netsplit
  · simp [hidle]

theorem Between.eob {s : Fanout} (h : Between s) (lc : Nat) : Between (Fanout.handleEob s lc) := by
  unfold Fanout.handleEob
  split
  · exact h.closeNetjoin
  · exact h

theorem Between.joins {s : Fanout} (h : Between s) (lc : Nat) (ns : List Notice) :
    Between (Fanout.handleJoins s lc ns) := by
  have hok : ∀ cur, FanOk ({ s with fbCur := cur }.tellAll ns) := fun cur =>
    (show FanOk { s with fbCur := cur } from ⟨h.slots, h.clients⟩).tellAll ns
  unfold Fanout.handleJoins
  simp only
  split
  · have hok := hok (some .netjoin)
    rw [tellAll_frame] at hok ⊢
    exact ⟨⟨hok.slots, hok.clients⟩, h.cur, h.netsplit, h.netjoin, h.bursting⟩
  · have hok := h.tellAll ns
    rw [tellAll_frame] at hok ⊢
    exact ⟨⟨hok.slots, hok.clients⟩, h.cur, h.netsplit, h.netjoin, h.bursting⟩

theorem Between.linkDown {s : Fanout} (h : Between s) (lc : Nat) (root : Text)
    (quits : List Notice) : Between (Fanout.netsyncLinkDown s lc root quits) := by
  have hgone : ∀ t : Fanout, Between t → t.netjoinLc ≠ some lc →
      Between { t with links := t.links.filter (· ≠ lc) } := by
    intro t ht hne
    refine ⟨⟨ht.slots, ht.clients⟩, ht.cur, ht.netsplit, ht.netjoin, fun x hx => ?_⟩
    have hx' : t.netjoinLc = some x := hx
    refine List.mem_filter.mpr ⟨ht.bursting x hx', ?_⟩
    rw [hx'] at hne
    simpa using fun e => hne (by rw [e])
  unfold Fanout.netsyncLinkDown
  simp only
  split
  · exact (hgone _ h.closeNetjoin (by simp)).removeTree _ _ quits
  · rename_i hne
    exact (hgone s h hne).removeTree _ _ quits

/-- **Each event leaves the marks true.** -/
theorem Between.step {s : Fanout} (h : Between s) (e : FanEvent) : Between (fanStep s e) := by
  cases e with
  | connect sendqMax =>
    refine ⟨⟨h.slots, fun c hc => ?_⟩, h.cur, h.netsplit, h.netjoin, h.bursting⟩
    rcases List.mem_cons.mp hc with rfl | hc
    · refine ⟨fun pre o post he => absurd he (by simp), fun id hpos => absurd hpos (by simp [opened]),
        fun slot => Nat.zero_le _, fun _ slot hact => ?_, fun _ id hpos => absurd hpos (by simp [opened])⟩
      have hgen := ((h.slots slot).2 hact).2
      exact ⟨by rw [if_neg (by show ¬ 0 = (s.fb slot).gen; omega)]; rfl, by simp⟩
    · exact h.clients c hc
  | cap connId batch timeTag => exact h.onConn connId fun c hc => ⟨hc.well, hc.known, hc.mark, hc.live, hc.closed⟩
  | write connId n => exact h.onConn connId fun c hc => ⟨hc.well, hc.known, hc.mark, hc.live, hc.closed⟩
  | markQuit connId => exact h.onConn connId fun c hc => hc.quit
  | remove connId =>
    exact ⟨⟨h.slots, fun c hc => h.clients c (List.mem_of_mem_filter hc)⟩, h.cur, h.netsplit,
      h.netjoin, h.bursting⟩
  | other ns => exact h.tellAll ns
  | linkUp lc name =>
    simp only [fanStep]
    split
    · exact h
    · exact h.linkUp lc name
  | joins lc ns =>
    simp only [fanStep]
    split
    · exact h.joins lc ns
    · exact h
  | eob lc =>
    simp only [fanStep]
    split
    · exact h.eob lc
    · exact h
  | squit lc up root quits =>
    simp only [fanStep]
    split
    · exact h.removeTree up root quits
    · exact h
  | linkDown lc root quits =>
    simp only [fanStep]
    split
    · exact h.linkDown lc root quits
    · exact h

theorem between_run (name : Text) (evs : List FanEvent) : Between (fanRun name evs) := by
  have hstart : Between (Fanout.start name) :=
    ⟨⟨fun _ => ⟨le_refl _, fun he => absurd he (by simp [Fanout.start])⟩,
      fun c hc => absurd hc (by simp [Fanout.start])⟩, rfl, rfl, by simp [Fanout.start],
      fun lc hx => absurd hx (by simp [Fanout.start])⟩
  have hfold : ∀ s, Between s → Between (evs.foldl fanStep s) := by
    induction evs with
    | nil => exact fun s h => h
    | cons e evs ih => exact fun s h => ih _ (h.step e)
  exact hfold _ hstart

/-- The client has seen the closing of every batch that it has seen opened, so it waits for nothing
any more. -/
def AllClosed (c : Listener) : Prop := ∀ id, 0 < opened c.sent id → .batchClose id ∈ c.sent

/-- While no link is in its burst, nothing is left open. -/
theorem Between.allClosed {s : Fanout} (h : Between s) (hnone : s.netjoinLc = none) {c : Listener}
    (hc : c ∈ s.allClients) (hq : c.quitting = false) : AllClosed c := by
  intro id hpos
  rcases (h.clients c hc).closed hq id hpos with hclose | ⟨slot, hact, -⟩
  · exact hclose
  · cases slot with
    | netsplit =>
      rw [h.netsplit] at hact
      exact absurd hact (by simp)
    | netjoin =>
      have := h.netjoin.mp hact
      rw [hnone] at this
      exact absurd this (by simp)

theorem Fanout.removeServerTree_netjoinLc (s : Fanout) (up root : Text) (quits : List Notice) :
    (Fanout.removeServerTree s up root quits).netjoinLc = s.netjoinLc := by
  have hbegin := (fbatchBegin_frame s .netsplit "netsplit".toList up root).2.2.2.2
  simp only [Fanout.removeServerTree]
  rw [(fbatchEnd_frame _ .netsplit).2.2.2.2, tellAll_frame]
  exact hbegin

/-- The end of a burst, or of its link, closes the netjoin. -/
theorem netjoinLc_closed {s : Fanout} {lc : Nat} (h : Between s) (hlc : s.netjoinLc = some lc)
    {e : FanEvent} (he : e = .eob lc ∨ ∃ root quits, e = .linkDown lc root quits) :
    (fanStep s e).netjoinLc = none := by
  have hmem := h.bursting lc hlc
  rcases he with rfl | ⟨root, quits, rfl⟩
  · simp only [fanStep, if_pos hmem, Fanout.handleEob, if_pos hlc]
  · simp only [fanStep, if_pos hmem, Fanout.netsyncLinkDown, if_pos hlc, Fanout.removeServerTree_netjoinLc]

/-- **Netsplit and netjoin batches are well formed.**  At every moment of every run, what a client
has been sent is well batched; whatever it has seen opened it has seen closed, unless the link
that holds the netjoin is still in its burst, and then the end of the burst or of the link closes
it. -/
theorem batches_well_formed (name : Text) (evs : List FanEvent) :
    (∀ c ∈ (fanRun name evs).allClients, WellBatched c.sent) ∧
      match (fanRun name evs).netjoinLc with
      | none => ∀ c ∈ (fanRun name evs).allClients, c.quitting = false → AllClosed c
      | some lc => lc ∈ (fanRun name evs).links ∧
          ∀ e, (e = .eob lc ∨ ∃ root quits, e = .linkDown lc root quits) →
            ∀ c ∈ (fanStep (fanRun name evs) e).allClients, c.quitting = false → AllClosed c := by
  have h := between_run name evs
  refine ⟨fun c hc => (h.clients c hc).well, ?_⟩
  cases hlc : (fanRun name evs).netjoinLc with
  | none => exact fun c hc hq => h.allClosed hlc hc hq
  | some lc =>
    exact ⟨h.bursting lc hlc, fun e he c hc hq =>
      (h.step e).allClosed (netjoinLc_closed h hlc he) hc hq⟩

/-- A second link takes the slot over while the first is in its burst. -/
def demoBursts : List FanEvent :=
  [.connect 10000, .cap 1 true 0, .linkUp 1 "hub.a".toList,
    .joins 1 [⟨1, true, ":bob JOIN #c".toList⟩], .linkUp 2 "hub.b".toList,
    .joins 1 [⟨1, true, ":eve JOIN #c".toList⟩], .joins 2 [⟨1, true, ":ann JOIN #c".toList⟩], .eob 2]

example : (fanRun "irc.a".toList demoBursts).allClients.map (fun c => c.sent.map (Sent.text "irc.a".toList)) =
    [[":irc.a BATCH +nj1 netjoin irc.a hub.a".toList, "@batch=nj1 :bob JOIN #c".toList,
      ":irc.a BATCH -nj1".toList, ":eve JOIN #c".toList,
      ":irc.a BATCH +nj2 netjoin irc.a hub.b".toList, "@batch=nj2 :ann JOIN #c".toList,
      ":irc.a BATCH -nj2".toList]] := by
  decide +kernel

end SekurIRCd
