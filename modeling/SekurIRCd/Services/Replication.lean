/-
# Accounts that come from other servers

A record from another server is taken if the account is unknown here or older, and a deletion if
the record here is older.  A deletion leaves nothing behind, not even when it was: a record that is
older than the deletion, and comes after it, is taken again.

How old a record here is says its `updated_at`.  The timestamp the record came with is written
there, as a double, but behind what the record says itself: of an `updated_at` that its sender gave
twice only the first is taken out, and the other is the one that is read.

`replication_converges_iff` says for every list of updates and deletions when their order does not
matter.  For each account there is no record at all, or a record that wins: no other record and no
deletion is newer than it says it is, and one of the updates that leave it is newer than any other
record says.  Where timestamps differ and the records carry the one they came with, this is to say
that no deletion is the newest operation of an account that a record was sent of.
-/
import SekurIRCd.Lib.Newest
import SekurIRCd.Services.AccountIndex

namespace SekurIRCd

open CLib Newest

/-! ## 1. What comes

An operation is for one account, whose key is the folded name.  Whether an update could be taken
at all is a matter of its text: it has to be an object with a name, and that of the account. -/

/-- The key of an account's record. -/
def recordKey (name : Text) : Text := ircCasefold 64 name

/-- The `updated_at` of a record, as `accounts_updated_at` reads it. -/
def JsonRecord.updatedAt (r : JsonRecord) : Int := (r.getNumber "updated_at".toList).getD 0

/-- What `accounts_apply_remote` makes of a record before it stores it. -/
def JsonRecord.restamped (r : JsonRecord) (ts : Int) : JsonRecord :=
  (r.delete "updated_at".toList).add "updated_at".toList (.number (JsonText.nearestDouble ts))

/-- What comes from another server; of an update what its text was parsed to, if it is an object.
The name is as it was sent, in any case. -/
inductive AccountOp
  | update (name : Text) (ts : Int) (parsed : Option JsonRecord)
  | delete (name : Text) (ts : Int)

namespace AccountOp

def key : AccountOp → Text
  | .update name .. => recordKey name
  | .delete name _ => recordKey name

def stamp : AccountOp → Int
  | .update _ ts _ => ts
  | .delete _ ts => ts

/-- The record as it would be stored, if it is one of this account; of a deletion `some none`. -/
def content : AccountOp → Option (Option JsonRecord)
  | .update name ts parsed =>
    (parsed.filter fun r => (r.getText "name".toList).any fun nm => caseEq nm name).map
      fun r => some (r.restamped ts)
  | .delete .. => some none

/-- The function that is called for it. -/
def apply (st : AccountStore) : AccountOp → AccountStore
  | .update name ts parsed => st.applyRemote name ts parsed
  | .delete name ts => st.applyRemoteDelete name ts

end AccountOp

/-- The store nothing has been put into. -/
def noAccounts : AccountStore := loadAccounts []

/-- The store after these operations, from nothing. -/
def replicated (ops : List AccountOp) : AccountStore := ops.foldl AccountOp.apply noAccounts

/-! ## 2. One account

The store holds at most one record of a key, and what it holds of one account is a slot: each
operation is one of its account's slot and leaves the others alone. -/

/-- What the store holds of an account. -/
def slotOf (st : AccountStore) (k : Text) : Option JsonRecord :=
  (st.data.find? fun r => r.key == k).map StoredRecord.items

/-- What an operation is for an account. -/
def opFor (k : Text) (op : AccountOp) : Option (Op Int JsonRecord) :=
  if op.key = k then op.content.map fun c => (op.stamp, c) else none

section Slot

variable {st : AccountStore}

theorem opFor_eq_some {k : Text} {op : AccountOp} {o : Op Int JsonRecord}
    (h : opFor k op = some o) : op.key = k ∧ o.1 = op.stamp ∧ op.content = some o.2 := by
  unfold opFor at h
  split at h
  next hk =>
    obtain ⟨c, hc, rfl⟩ := Option.map_eq_some_iff.mp h
    exact ⟨hk, rfl, hc⟩
  next => exact absurd h (by simp)

/-- What is in the store is what it holds of the accounts. -/
theorem Named.mem_iff (h : Named st) (k : Text) (items : JsonRecord) :
    (∃ r ∈ st.data, r.key = k ∧ r.items = items) ↔ slotOf st k = some items := by
  rw [slotOf, Option.map_eq_some_iff]
  constructor
  · rintro ⟨r, hr, rfl, rfl⟩
    refine ⟨r, ?_, rfl⟩
    cases hf : st.data.find? fun x => x.key == r.key with
    | none => exact absurd (beq_self_eq_true r.key) (List.find?_eq_none.mp hf r hr)
    | some x =>
      have hx : x.key = r.key := by simpa using List.find?_some hf
      rw [List.inj_on_of_nodup_map h.keys (List.mem_of_find?_eq_some hf) hr hx]
  · rintro ⟨r, hr, rfl⟩
    exact ⟨r, List.mem_of_find?_eq_some hr, by simpa using List.find?_some hr, rfl⟩

/-- What the store holds of an account is what `find` gives, and its `updated_at`. -/
theorem Named.slotOf_find (h : Named st) (name : Text) :
    slotOf st (recordKey name) = (st.find name).map StoredRecord.items ∧
      st.updatedAt name = ((st.find name).map fun r => r.items.updatedAt).getD 0 := by
  refine ⟨by rw [h.find_eq, slotOf, recordKey], ?_⟩
  rw [AccountStore.updatedAt, AccountStore.numberOf]
  cases st.find name with
  | none => rfl
  | some r => rfl

/-- A record takes the place of the one that was there, if one was. -/
theorem Named.replaced (h : Named st) {st' : AccountStore} (name : Text) (items : JsonRecord)
    (hdata : st'.data = (if (st.find name).isSome then
      st.data.eraseP fun x => x.key == recordKey name else st.data) ++
        [⟨st.next, recordKey name, items⟩])
    (hnext : st'.next = st.next + 1)
    (hbyName : st'.byName = idxPut (if (st.find name).isSome then idxDel st.byName (recordKey name)
      else st.byName) (recordKey name) st.next) :
    Named st' ∧ ∀ k, slotOf st' k = if k = recordKey name then some items else slotOf st k := by
  -- the store without that account
  obtain ⟨old, hold, hgone, holdData, holdNext, holdName⟩ : ∃ old : AccountStore, Named old ∧
      (∀ r ∈ old.data, r.key ≠ recordKey name) ∧
      old.data = (if (st.find name).isSome then st.data.eraseP fun x => x.key == recordKey name
        else st.data) ∧ old.next = st.next ∧
      old.byName = if (st.find name).isSome then idxDel st.byName (recordKey name)
        else st.byName := by
    cases hf : st.find name with
    | none => exact ⟨st, h, h.key_new hf, rfl, rfl, rfl⟩
    | some r =>
      exact ⟨{ st with
          data := st.data.eraseP fun x => x.key == recordKey name
          byName := idxDel st.byName (recordKey name) },
        h.erase rfl rfl rfl, h.erased (recordKey name), rfl, rfl, rfl⟩
  rw [← holdData, ← holdNext] at hdata
  rw [← holdName, ← holdNext] at hbyName
  rw [← holdNext] at hnext
  refine ⟨hold.append hgone hdata hnext hbyName, fun k => ?_⟩
  have hother : k ≠ recordKey name → slotOf old k = slotOf st k := by
    intro hk
    rw [slotOf, slotOf, holdData]
    split
    · rw [find?_eraseP_ne hk]
    · rfl
  rw [slotOf, hdata, List.find?_append, List.find?_singleton]
  by_cases hk : k = recordKey name
  · have hnone : old.data.find? (fun r => r.key == k) = none := by
      rw [List.find?_eq_none]
      exact fun r hr he => hgone r hr ((beq_iff_eq.mp he).trans hk)
    rw [hnone, if_pos hk, hk, Option.none_or, if_pos (beq_self_eq_true _)]
    rfl
  · rw [if_neg hk, if_neg (by simpa using Ne.symm hk), Option.or_none, ← slotOf, hother hk]

theorem Named.dropped (h : Named st) (name : Text) :
    Named (st.drop name) ∧
      ∀ k, slotOf (st.drop name) k = if k = recordKey name then none else slotOf st k := by
  unfold AccountStore.drop
  dsimp only
  split
  next hnone =>
    refine ⟨h, fun k => ?_⟩
    split
    next hk => rw [hk, (h.slotOf_find name).1, hnone, Option.map_none]
    next => rfl
  next r hr =>
    refine ⟨h.erase rfl rfl rfl, fun k => ?_⟩
    rw [slotOf, find?_eraseP h.keys]
    by_cases hk : k = recordKey name
    · rw [if_pos hk, if_pos (show ircCasefold 64 name = k from hk.symm)]
      rfl
    · rw [if_neg hk, if_neg (show ¬ ircCasefold 64 name = k from Ne.symm hk)]
      rfl

/-- An update whose text is no record of the account is not taken. -/
theorem applyRemote_of_content {name : Text} {ts : Int} {parsed : Option JsonRecord}
    (h : (AccountOp.update name ts parsed).content = none) : st.applyRemote name ts parsed = st := by
  cases parsed with
  | none => rfl
  | some r =>
    rw [AccountStore.applyRemote]
    rw [AccountOp.content, Option.map_eq_none_iff, Option.filter_some] at h
    cases hnm : r.getText "name".toList with
    | none => rfl
    | some nm =>
      rw [hnm, Option.any_some] at h
      dsimp only
      rw [if_pos (Bool.eq_false_of_not_eq_true fun hname => absurd h (by simp [hname]))]

/-- One that is a record of it is taken unless the record here is as new. -/
theorem Named.applyRemote (h : Named st) {name : Text} {ts : Int} {parsed : Option JsonRecord}
    {items : JsonRecord} (hc : (AccountOp.update name ts parsed).content = some (some items)) :
    Named (st.applyRemote name ts parsed) ∧ ∀ k, slotOf (st.applyRemote name ts parsed) k =
      if k = recordKey name then apply JsonRecord.updatedAt (slotOf st k) (ts, some items)
      else slotOf st k := by
  obtain ⟨r, hfilter, hitems⟩ := Option.map_eq_some_iff.mp hc
  obtain ⟨rfl, hname⟩ := Option.filter_eq_some_iff.mp hfilter
  obtain ⟨nm, hnm, hcase⟩ := (Option.any_eq_true _ _).mp hname
  obtain rfl := Option.some.inj hitems
  obtain ⟨hslot, hupdated⟩ := h.slotOf_find name
  rw [AccountStore.applyRemote, hnm]
  dsimp only
  rw [if_neg (by simp [hcase])]
  split
  next hnew =>
    obtain ⟨old, hold⟩ := Option.isSome_iff_exists.mp hnew.2
    refine ⟨h, fun k => ?_⟩
    split
    next hk =>
      rw [hold] at hslot hupdated
      change st.updatedAt name = old.items.updatedAt at hupdated
      rw [hk, hslot, Option.map_some, apply, if_pos (hnew.1.trans_eq hupdated)]
    next => rfl
  next hnew =>
    refine And.imp_right (fun hslots k => (hslots k).trans ?_)
      (h.replaced name (r.restamped ts) rfl rfl rfl)
    split
    next hk =>
      rw [hk, hslot]
      cases hold : st.find name with
      | none => rfl
      | some old =>
        rw [hold] at hnew hupdated
        have hlt : ¬ ts ≤ old.items.updatedAt := fun hle =>
          hnew ⟨hle.trans_eq hupdated.symm, rfl⟩
        rw [Option.map_some, apply, if_neg hlt]
    next => rfl

/-- A deletion is taken unless the record here is as new. -/
theorem Named.applyRemoteDelete (h : Named st) (name : Text) (ts : Int) :
    Named (st.applyRemoteDelete name ts) ∧ ∀ k, slotOf (st.applyRemoteDelete name ts) k =
      if k = recordKey name then apply JsonRecord.updatedAt (slotOf st k) (ts, none)
      else slotOf st k := by
  obtain ⟨hslot, hupdated⟩ := h.slotOf_find name
  obtain ⟨hdropped, hslots⟩ := h.dropped name
  rw [AccountStore.applyRemoteDelete]
  cases hold : st.find name with
  | none =>
    rw [hold] at hslot
    rw [if_neg (by simp)]
    refine ⟨h, fun k => ?_⟩
    split
    next hk =>
      rw [hk, hslot]
      rfl
    next => rfl
  | some old =>
    rw [hold] at hslot hupdated
    change st.updatedAt name = old.items.updatedAt at hupdated
    split
    next hlt =>
      refine ⟨hdropped, fun k => (hslots k).trans ?_⟩
      split
      next hk =>
        rw [hk, hslot, Option.map_some, apply, if_neg (not_le.mpr (hupdated ▸ hlt.2))]
      next => rfl
    next hle =>
      have hle : ts ≤ old.items.updatedAt := hupdated ▸ not_lt.mp fun hlt => hle ⟨rfl, hlt⟩
      refine ⟨h, fun k => ?_⟩
      split
      next hk => rw [hk, hslot, Option.map_some, apply, if_pos hle]
      next => rfl

/-- **An operation is one of its account's slot**, and no other's. -/
theorem Named.step (h : Named st) (op : AccountOp) :
    Named (op.apply st) ∧ ∀ k, slotOf (op.apply st) k =
      (opFor k op).elim (slotOf st k) (apply JsonRecord.updatedAt (slotOf st k)) := by
  have hop : ∀ {c : Option JsonRecord}, op.content = some c → ∀ k,
      (opFor k op).elim (slotOf st k) (apply JsonRecord.updatedAt (slotOf st k)) =
        if k = op.key then apply JsonRecord.updatedAt (slotOf st k) (op.stamp, c)
        else slotOf st k := by
    intro c hc k
    by_cases hk : k = op.key
    · rw [opFor, if_pos hk.symm, hc, if_pos hk]
      rfl
    · rw [opFor, if_neg (Ne.symm hk), if_neg hk]
      rfl
  cases op with
  | update name ts parsed =>
    cases hc : (AccountOp.update name ts parsed).content with
    | none =>
      rw [AccountOp.apply, applyRemote_of_content hc]
      refine ⟨h, fun k => ?_⟩
      rw [opFor, hc, Option.map_none, ite_self]
      rfl
    | some c =>
      obtain ⟨r, -, rfl⟩ := Option.map_eq_some_iff.mp hc
      obtain ⟨hnamed, hslots⟩ := h.applyRemote hc
      exact ⟨hnamed, fun k => (hslots k).trans (hop hc k).symm⟩
  | delete name ts =>
    obtain ⟨hnamed, hslots⟩ := h.applyRemoteDelete name ts
    exact ⟨hnamed, fun k => (hslots k).trans (hop rfl k).symm⟩

/-- What the store holds of an account after all of them. -/
theorem replicated_slots (ops : List AccountOp) :
    Named (replicated ops) ∧
      ∀ k, slotOf (replicated ops) k = run JsonRecord.updatedAt (ops.filterMap (opFor k)) := by
  induction ops using List.reverseRecOn with
  | nil =>
    have hnew : Indexed noAccounts :=
      @indexed_load [] List.nodup_nil fun _ hx => absurd hx List.not_mem_nil
    exact ⟨hnew.toNamed, fun _ => rfl⟩
  | append_singleton ops op ih =>
    obtain ⟨hnamed, hslots⟩ := ih
    obtain ⟨hnamed', hslots'⟩ := hnamed.step op
    rw [replicated, List.foldl_append]
    refine ⟨hnamed', fun k => (hslots' k).trans ?_⟩
    rw [List.filterMap_append, hslots]
    cases ho : opFor k op with
    | none => simp [ho]
    | some o => simp [ho, run_append]

end Slot

/-! ## 3. Any order

Two stores have the same records where they hold the same of every account, and an order of one
account's operations is one of all operations.  So the question is one of each slot. -/

/-- The records of a store, with their keys. -/
def HasRecord (st : AccountStore) (k : Text) (items : JsonRecord) : Prop :=
  ∃ r ∈ st.data, r.key = k ∧ r.items = items

/-- **Any order** leaves the same records, with the same items. It is what servers need that get
the same operations over different links. -/
def OrderFree (ops : List AccountOp) : Prop :=
  ∀ p q : List AccountOp, p.Perm ops → q.Perm ops → ∀ k items,
    HasRecord (replicated p) k items ↔ HasRecord (replicated q) k items

/-- The condition: nothing but deletions is sent of the account, or one of its records wins. It is
on what is sent, and on no order of it. -/
def AccountSettled (ops : List AccountOp) (k : Text) : Prop :=
  (∀ o ∈ ops.filterMap (opFor k), o.2 = none) ∨
    ∃ w, Wins JsonRecord.updatedAt (ops.filterMap (opFor k)) w

/-- The timestamps of an account are distinct. -/
def OwnStamps (ops : List AccountOp) : Prop :=
  ops.Pairwise fun a b => a.key = b.key → a.stamp ≠ b.stamp

/-- Every record is stored with the timestamp it came with: its text has at most one `updated_at`,
and a double holds the number. -/
def CarriesStamp (ops : List AccountOp) : Prop :=
  ∀ op ∈ ops, ∀ items, op.content = some (some items) → items.updatedAt = op.stamp

/-- No deletion is the newest operation of an account that a record was sent of. A deletion keeps
no time, so an older record that comes after it is taken for news. -/
def NoLateDelete (ops : List AccountOp) : Prop := ∀ k, WriteLast (ops.filterMap (opFor k))

section Orders

variable {ops : List AccountOp}

theorem orderFree_iff : OrderFree ops ↔ ∀ k, AccountSettled ops k := by
  have hrecords : ∀ (p : List AccountOp) (k : Text) (items : JsonRecord),
      HasRecord (replicated p) k items ↔
        run JsonRecord.updatedAt (p.filterMap (opFor k)) = some items := by
    intro p k items
    obtain ⟨hnamed, hslots⟩ := replicated_slots p
    rw [HasRecord, hnamed.mem_iff, hslots]
  constructor
  · intro h k
    refine same_orders_iff.mp fun m n hm hn => Option.ext fun items => ?_
    obtain ⟨p, hp, rfl⟩ := exists_perm_filterMap hm
    obtain ⟨q, hq, rfl⟩ := exists_perm_filterMap hn
    exact (hrecords p k items).symm.trans ((h p q hp hq k items).trans (hrecords q k items))
  · intro h p q hp hq k items
    rw [hrecords, hrecords, same_orders_iff.mpr (h k) _ _ (hp.filterMap _) (hq.filterMap _)]

theorem OwnStamps.distinct (h : OwnStamps ops) (k : Text) :
    ∀ a ∈ ops.filterMap (opFor k), ∀ b ∈ ops.filterMap (opFor k), a ≠ b → a.1 ≠ b.1 := by
  intro a ha b hb hab
  obtain ⟨x, hx, hxa⟩ := List.mem_filterMap.mp ha
  obtain ⟨y, hy, hyb⟩ := List.mem_filterMap.mp hb
  obtain ⟨hxk, hxs, -⟩ := opFor_eq_some hxa
  obtain ⟨hyk, hys, -⟩ := opFor_eq_some hyb
  have hxy : x ≠ y := by
    rintro rfl
    exact hab (Option.some.inj (hxa.symm.trans hyb))
  have hsymm : Std.Symm fun a b : AccountOp => a.key = b.key → a.stamp ≠ b.stamp :=
    ⟨fun _ _ hr he => (hr he.symm).symm⟩
  rw [hxs, hys]
  exact List.Pairwise.forall h hx hy hxy (hxk.trans hyk.symm)

theorem CarriesStamp.own (h : CarriesStamp ops) (k : Text) :
    ∀ o ∈ ops.filterMap (opFor k), ∀ v, o.2 = some v → v.updatedAt = o.1 := by
  intro o ho v hv
  obtain ⟨x, hx, hxo⟩ := List.mem_filterMap.mp ho
  obtain ⟨-, hstamp, hc⟩ := opFor_eq_some hxo
  rw [hstamp]
  exact h x hx v (hc.trans (congrArg some hv))

/-- A record with at most one `updated_at` and a timestamp of at most 53 bits carries it. -/
theorem updatedAt_restamped {r : JsonRecord} {ts : Int}
    (hone : (r.delete "updated_at".toList).get "updated_at".toList = none)
    (hexact : JsonText.nearestDouble ts = ts) : (r.restamped ts).updatedAt = ts := by
  rw [JsonRecord.updatedAt, JsonRecord.getNumber, JsonRecord.restamped,
    JsonRecord.get_add_of_none hone, hexact]
  rfl

/-- **Replication converges** exactly when of every account there is no record, or one that wins.
Where timestamps differ and records carry theirs, it does exactly when no deletion is the newest
operation of an account that a record was sent of. -/
theorem replication_converges_iff (ops : List AccountOp) :
    (OrderFree ops ↔ ∀ k, AccountSettled ops k) ∧
      (OwnStamps ops → CarriesStamp ops → (OrderFree ops ↔ NoLateDelete ops)) := by
  refine ⟨orderFree_iff, fun hown hcarries => orderFree_iff.trans ?_⟩
  exact forall_congr' fun k => wins_iff_writeLast (hown.distinct k) (hcarries.own k)

end Orders

/-! ## 4. Some runs

The account Alice, made twice and deleted in between, and the two ways in which the order matters:
a deletion that is overtaken, and a record whose sender names its time twice. -/

/-- A record of Alice, with these items behind the name. -/
def aliceItems (items : JsonRecord) : JsonRecord := ("name".toList, .text "Alice".toList) :: items

/-- A record of Alice, its deletion and a newer record. -/
def demoOps : List AccountOp :=
  [.update "Alice".toList 1 (some (aliceItems [("email".toList, .text "a@b".toList)])),
    .delete "alice".toList 2, .update "alice".toList 3 (some (aliceItems []))]

/-- The record is taken in any order: its newest operation is the second record. -/
theorem replication_converges_demo : OrderFree demoOps ∧ CarriesStamp demoOps := by
  have hcarries : CarriesStamp demoOps := by
    intro op hop items hitems
    rcases List.mem_cons.mp hop with rfl | hop
    · obtain rfl := Option.some.inj (Option.some.inj hitems)
      exact updatedAt_restamped rfl rfl
    rcases List.mem_cons.mp hop with rfl | hop
    · exact absurd (Option.some.inj hitems) (by simp)
    · obtain rfl := List.mem_singleton.mp hop
      obtain rfl := Option.some.inj (Option.some.inj hitems)
      exact updatedAt_restamped rfl rfl
  refine ⟨((replication_converges_iff demoOps).2 ?_ hcarries).mpr ?_, hcarries⟩
  · simp [demoOps, OwnStamps, AccountOp.stamp]
  intro k d hd hdelete hwrite
  obtain ⟨x, hx, hxd⟩ := List.mem_filterMap.mp hd
  obtain ⟨hk, -, hc⟩ := opFor_eq_some hxd
  rw [hdelete] at hc
  rcases List.mem_cons.mp hx with rfl | hx
  · exact absurd (Option.some.inj hc) (by simp)
  rcases List.mem_cons.mp hx with rfl | hx
  · subst hk
    obtain rfl := Option.some.inj hxd
    exact ⟨(3, some ((aliceItems []).restamped 3)), List.mem_filterMap.mpr
      ⟨.update "alice".toList 3 (some (aliceItems [])), by simp [demoOps], rfl⟩, rfl, by decide⟩
  · obtain rfl := List.mem_singleton.mp hx
    exact absurd (Option.some.inj hc) (by simp)

/-- **A record that is overtaken by its deletion** comes back; and of two records the one whose
sender wrote `updated_at` twice stays if it comes first, though it is the older. -/
theorem deleted_account_returns :
    ¬ OrderFree [.update "Alice".toList 1 (some (aliceItems [])), .delete "alice".toList 2] ∧
      ¬ OrderFree [.update "Alice".toList 1 (some (aliceItems
          [("updated_at".toList, .number 1), ("updated_at".toList, .number 9)])),
        .update "Alice".toList 5 (some (aliceItems []))] := by
  refine ⟨fun h => ?_, fun h => ?_⟩
  · -- with the deletion last nothing is left
    have hback := (h _ _ (List.Perm.refl _) (List.Perm.swap _ _ []) "alice".toList
      ((aliceItems []).restamped 1)).mpr ⟨_, List.mem_singleton.mpr rfl, rfl, rfl⟩
    obtain ⟨r, hr, -⟩ := hback
    exact absurd hr List.not_mem_nil
  · have hback := (h _ _ (List.Perm.refl _) (List.Perm.swap _ _ []) "alice".toList
      ((aliceItems []).restamped 5)).mpr ⟨_, List.mem_singleton.mpr rfl, rfl, rfl⟩
    obtain ⟨r, hr, -, hitems⟩ := hback
    obtain rfl := List.mem_singleton.mp hr
    exact absurd hitems (by decide)

end SekurIRCd
