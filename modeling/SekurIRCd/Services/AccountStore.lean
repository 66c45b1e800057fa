/-
# The account database

NickServ keeps the accounts in a JSON object, parsed once and edited in place.  Its keys are the
casefolded names.  An index by name is kept up to date with every change; one by grouped nick and
one by certificate fingerprint are thrown away by a change and built again when they are next
read, and `n_grouped` counts the grouped nicks.

The file may hold anything that is JSON, so a record is the list of its items, in their order and
possibly with one key twice.  What is deeper inside an item than its own children is never read,
and a child that is no string is not told from another.  What is written to the disk and told to
the network is left out.
-/
import SekurIRCd.Proto
import SekurIRCd.Lib.Json

namespace SekurIRCd

open CLib

/-! ## 1. Records

A record is edited as cJSON edits an object: an item is found by the first key that is equal,
deleted there, and added at the end. -/

/-- What a `cJSON` item is. -/
inductive JsonKind
  | str (s : Text)
  | num (n : Int)
  | bool (b : Bool)
  | arr
  | obj
  | null
deriving DecidableEq

/-- A `cJSON` item and its children: their names, empty in an array, and the texts of those that
are strings. -/
structure JsonItem where
  kind : JsonKind
  child : List (Text × Option Text)
deriving DecidableEq

def JsonItem.text (s : Text) : JsonItem := ⟨.str s, []⟩

def JsonItem.number (n : Int) : JsonItem := ⟨.num n, []⟩

/-- A record: the items of an object. -/
abbrev JsonRecord := List (Text × JsonItem)

namespace JsonRecord

/-- `cJSON_GetObjectItemCaseSensitive`. -/
def get (r : JsonRecord) (key : Text) : Option JsonItem :=
  (r.find? fun x => x.1 == key).map Prod.snd

/-- The item, if `cJSON_IsString`. -/
def getText (r : JsonRecord) (key : Text) : Option Text :=
  match r.get key with
  | some ⟨.str s, _⟩ => some s
  | _ => none

/-- The item, if `cJSON_IsNumber`, as a whole number. -/
def getNumber (r : JsonRecord) (key : Text) : Option Int :=
  match r.get key with
  | some ⟨.num n, _⟩ => some n
  | _ => none

/-- The children of the item, if `cJSON_IsArray`. -/
def getArray (r : JsonRecord) (key : Text) : Option (List (Option Text)) :=
  match r.get key with
  | some ⟨.arr, child⟩ => some (child.map Prod.snd)
  | _ => none

/-- `cJSON_DeleteItemFromObjectCaseSensitive`. -/
def delete (r : JsonRecord) (key : Text) : JsonRecord := r.eraseP fun x => x.1 == key

/-- `cJSON_AddItemToObject`, at the end. -/
def add (r : JsonRecord) (key : Text) (item : JsonItem) : JsonRecord := r ++ [(key, item)]

/-- The item is replaced where it stands: it is the same item with other children. -/
def setChild (r : JsonRecord) (key : Text) (child : List (Text × Option Text)) : JsonRecord :=
  match r with
  | [] => []
  | x :: r => if x.1 == key then (x.1, ⟨x.2.kind, child⟩) :: r else x :: setChild r key child

/-- `commit`: the record gets a newer `updated_at`. -/
def stamped (r : JsonRecord) (nowMs : Int) : JsonRecord :=
  let prev := (r.getNumber "updated_at".toList).getD 0
  let ts := if nowMs ≤ prev then prev + 1 else nowMs
  (r.delete "updated_at".toList).add "updated_at".toList (.number (JsonText.nearestDouble ts))

end JsonRecord

/-! ## 2. The store -/

/-- `struct aidx`: the pointers a key finds. -/
abbrev KeyIndex := List (Text × Nat)

/-- `idx_put`: the first record wins, and a key of 72 bytes or more is not indexed. -/
def idxPut (ix : KeyIndex) (key : Text) (rec : Nat) : KeyIndex :=
  if 72 ≤ key.length then ix
  else if ix.any (fun e => e.1 == key) then ix
  else ix ++ [(key, rec)]

/-- `idx_del`. -/
def idxDel (ix : KeyIndex) (key : Text) : KeyIndex := ix.eraseP fun e => e.1 == key

/-- `idx_get`. -/
def idxGet (ix : KeyIndex) (key : Text) : Option Nat := (ix.find? fun e => e.1 == key).map Prod.snd

/-- A record of the store, at its address and under its key. -/
structure StoredRecord where
  addr : Nat
  key : Text
  items : JsonRecord
deriving DecidableEq

/-- `account_store_t`. -/
structure AccountStore where
  data : List StoredRecord
  next : Nat
  byName : KeyIndex
  byNick : KeyIndex
  byFp : KeyIndex
  derivedStale : Bool
  nGrouped : Int
deriving DecidableEq

/-- The key a fingerprint is indexed under. -/
def fingerprintKey (fp : Text) : Text := lower (clip 72 fp)

/-- The nicks of a record, one after the other. -/
def putNicks (ix : KeyIndex) (r : StoredRecord) : KeyIndex :=
  ((r.items.getArray "nicks".toList).getD []).foldl
    (fun ix n => match n with
      | some nick => idxPut ix nick r.addr
      | none => ix) ix

def putFingerprint (ix : KeyIndex) (r : StoredRecord) : KeyIndex :=
  match r.items.getText "cert_fp".toList with
  | some fp => idxPut ix (fingerprintKey fp) r.addr
  | none => ix

/-- `cJSON_GetArraySize` of the nicks, if they are an array. -/
def JsonRecord.groupSize (r : JsonRecord) : Int := ((r.getArray "nicks".toList).getD []).length

/-- `index_all`, of what was parsed. -/
def loadAccounts (parsed : List (Text × JsonRecord)) : AccountStore :=
  let data := parsed.zipIdx.map fun x => ⟨x.2, x.1.1, x.1.2⟩
  { data := data
    next := parsed.length
    byName := data.foldl (fun ix r => idxPut ix r.key r.addr) []
    byNick := []
    byFp := []
    derivedStale := true
    nGrouped := (data.map fun r => r.items.groupSize).sum }

namespace AccountStore

variable (st : AccountStore)

/-- `derive`. -/
def derive : AccountStore :=
  if st.derivedStale then
    { st with
      byNick := st.data.foldl putNicks [], byFp := st.data.foldl putFingerprint []
      derivedStale := false }
  else st

/-- What a pointer points to. -/
def deref (addr : Nat) : Option StoredRecord := st.data.find? fun r => r.addr == addr

/-- `find`. -/
def find (name : Text) : Option StoredRecord :=
  (idxGet st.byName (ircCasefold 64 name)).bind st.deref

/-- A record is edited where it is. -/
def edit (addr : Nat) (f : JsonRecord → JsonRecord) : AccountStore :=
  { st with
    data := st.data.map fun r => if r.addr = addr then { r with items := f r.items } else r }

/-- What the setters do: find the record, edit it and commit it. -/
def update (name : Text) (nowMs : Int) (f : JsonRecord → JsonRecord) : AccountStore :=
  match st.find name with
  | none => st
  | some r => st.edit r.addr fun items => (f items).stamped nowMs

/-! ## 3. The functions of accounts.c

The functions in the order of the source, each on the whole store. Those that look something up
return the store too, since they may build an index. -/

/-- `accounts_exists`. -/
def exists_ (name : Text) : Bool := (st.find name).isSome

/-- `accounts_count`. -/
def count : Nat := st.data.length

/-- The string item of the record of a name. -/
def textOf (name key : Text) : Option Text := (st.find name).bind fun r => r.items.getText key

/-- The number item of the record of a name, and 0 if there is none. -/
def numberOf (name key : Text) : Int :=
  ((st.find name).bind fun r => r.items.getNumber key).getD 0

/-- `accounts_hash`. -/
def hash (name : Text) : Option Text := st.textOf name "pw_hash".toList

/-- `accounts_display_name`. -/
def displayName (name : Text) : Text := (st.textOf name "name".toList).getD name

/-- `accounts_scram`. -/
def scram (name : Text) : Option Text := st.textOf name "scram".toList

/-- `accounts_email`. -/
def email (name : Text) : Option Text := st.textOf name "email".toList

/-- `accounts_fingerprint`. -/
def fingerprint (name : Text) : Option Text := st.textOf name "cert_fp".toList

/-- `accounts_created_at`. -/
def createdAt (name : Text) : Int := st.numberOf name "created_at".toList

/-- `accounts_reset_expires`. -/
def resetExpires (name : Text) : Int := st.numberOf name "reset_expires".toList

/-- `accounts_updated_at`. -/
def updatedAt (name : Text) : Int := st.numberOf name "updated_at".toList

/-- `accounts_email_verified`. -/
def emailVerified (name : Text) : Bool :=
  match (st.find name).bind fun r => r.items.get "email_verified".toList with
  | some ⟨.bool b, _⟩ => b
  | _ => false

/-- `accounts_suspended`, with who did it and why. -/
def suspended (name : Text) : Option (Text × Text) :=
  match (st.find name).bind fun r => r.items.get "suspended".toList with
  | some ⟨.obj, child⟩ =>
    let textOfChild := fun key : Text => ((child.find? fun x => x.1 == key).bind Prod.snd).getD []
    some (textOfChild "by".toList, textOfChild "reason".toList)
  | _ => none

/-- The grouped nicks, as `accounts_group_count` and `accounts_group_nick` give them. -/
def groupNicks (name : Text) : List (Option Text) :=
  ((st.find name).bind fun r => r.items.getArray "nicks".toList).getD []

/-- `accounts_register_hashed`. -/
def registerHashed (name hash : Text) (nowMs : Int) : AccountStore :=
  let items : JsonRecord :=
    [("name".toList, .text name), ("pw_hash".toList, .text hash),
      ("created_at".toList, .number (nowMs / 1000))]
  let cf := ircCasefold 64 name
  { st with
    data := st.data ++ [⟨st.next, cf, items.stamped nowMs⟩]
    next := st.next + 1
    byName := idxPut st.byName cf st.next }

/-- `accounts_set_scram`. -/
def setScram (name verifier : Text) (nowMs : Int) : AccountStore :=
  if verifier = [] then st
  else st.update name nowMs fun r => (r.delete "scram".toList).add "scram".toList (.text verifier)

/-- `accounts_set_fingerprint`; `none` and the empty one remove it. -/
def setFingerprint (name : Text) (fp : Option Text) (nowMs : Int) : AccountStore :=
  match st.find name with
  | none => st
  | some _ =>
    let change := fun r : JsonRecord =>
      let r := r.delete "cert_fp".toList
      match fp with
      | some (c :: cs) => r.add "cert_fp".toList (.text (c :: cs))
      | _ => r
    { st.update name nowMs change with derivedStale := true }

/-- `accounts_find_by_fingerprint`. -/
def findByFingerprint (fp : Text) : Option Text × AccountStore :=
  if fp = [] then (none, st)
  else
    let st := st.derive
    (((idxGet st.byFp (fingerprintKey fp)).bind st.deref).bind fun r =>
      r.items.getText "name".toList, st)

/-- `accounts_set_hash`: the SCRAM verifier and a pending reset go with the old password. -/
def setHash (name hash : Text) (nowMs : Int) : AccountStore :=
  st.update name nowMs fun r =>
    ((((r.delete "pw_hash".toList).add "pw_hash".toList (.text hash)).delete "scram".toList).delete
      "reset_code".toList).delete "reset_expires".toList

/-- `accounts_set_reset`; `none` takes the code out. -/
def setReset (name : Text) (code : Option (Text × Int)) (nowMs : Int) : AccountStore :=
  st.update name nowMs fun r =>
    let r := (r.delete "reset_code".toList).delete "reset_expires".toList
    match code with
    | some (c :: cs, expires) =>
      (r.add "reset_code".toList (.text (c :: cs))).add "reset_expires".toList (.number expires)
    | _ => r

/-- The code a reset was mailed with, as long as it holds. -/
def resetOpen (name code : Text) (nowMs : Int) : Bool :=
  match st.textOf name "reset_code".toList with
  | none => false
  | some c => decide (nowMs / 1000 ≤ st.resetExpires name) && decide (c.length = code.length) &&
      caseEq c code

/-- `accounts_check_reset`.  A code has one use. -/
def checkReset (name code : Text) (nowMs : Int) : Bool × AccountStore :=
  if st.resetOpen name code nowMs then (true, st.setReset name none nowMs) else (false, st)

/-- `accounts_set_suspended`; `none` lifts a suspension. -/
def setSuspended (name : Text) (by_ : Option (Text × Text)) (nowMs : Int) : AccountStore :=
  st.update name nowMs fun r =>
    let r := r.delete "suspended".toList
    match by_ with
    | none => r
    | some (who, reason) =>
      r.add "suspended".toList
        ⟨.obj, [("by".toList, some who), ("reason".toList, some reason), ("at".toList, none)]⟩

/-- `accounts_drop`. -/
def drop (name : Text) : AccountStore :=
  let cf := ircCasefold 64 name
  match st.find name with
  | none => st
  | some r =>
    { st with
      data := st.data.eraseP fun x => x.key == cf
      byName := idxDel st.byName cf
      derivedStale := true
      nGrouped := st.nGrouped - r.items.groupSize }

/-- What is taken out of a record when its address changes. -/
def withoutEmail (r : JsonRecord) : JsonRecord :=
  ((((r.delete "email".toList).delete "email_verified".toList).delete
    "pending_email".toList).delete "verify_code".toList).delete "verify_expires".toList

/-- `accounts_set_email`. -/
def setEmail (name email : Text) (verified : Bool) (nowMs : Int) : AccountStore :=
  st.update name nowMs fun r =>
    if email = [] then withoutEmail r
    else ((withoutEmail r).add "email".toList (.text email)).add "email_verified".toList
      ⟨.bool verified, []⟩

/-- `accounts_set_pending_email`, which is saved but not told to the network. -/
def setPendingEmail (name email code : Text) (expires : Int) : AccountStore :=
  match st.find name with
  | none => st
  | some r => st.edit r.addr fun r =>
      ((((((r.delete "pending_email".toList).delete "verify_code".toList).delete
        "verify_expires".toList).add "pending_email".toList (.text email)).add
        "verify_code".toList (.text code)).add "verify_expires".toList (.number expires))

/-- `accounts_check_verify`. -/
def checkVerify (name code : Text) (nowMs : Int) : Bool × AccountStore :=
  match (st.find name).map StoredRecord.items with
  | none => (false, st)
  | some r =>
    match r.getText "verify_code".toList, r.getText "pending_email".toList,
      r.getNumber "verify_expires".toList with
    | some c, some pending, some expires =>
      if expires < nowMs / 1000 ∨ caseEq c code = false then (false, st)
      else (true, st.setEmail name (clip 200 pending) true nowMs)
    | _, _, _ => (false, st)

/-- `accounts_owner_of_nick`: the account of that name, or the one that has it among its nicks. -/
def ownerOfNick (nick : Text) : Option Text × AccountStore :=
  match st.find nick with
  | some own => (own.items.getText "name".toList, st)
  | none =>
    if st.nGrouped ≤ 0 then (none, st)
    else
      let st := st.derive
      (((idxGet st.byNick (ircCasefold 64 nick)).bind st.deref).bind fun r =>
        r.items.getText "name".toList, st)

def accountMaxGroup : Nat := 10

/-- `accounts_group_add`. -/
def groupAdd (name nick : Text) (nowMs : Int) : Bool × AccountStore :=
  match st.find name with
  | none => (false, st)
  | some rec =>
    let (owner, st) := st.ownerOfNick nick
    if owner.isSome then (false, st)
    else
      let nicks := rec.items.get "nicks".toList
      let child := (nicks.map JsonItem.child).getD []
      if accountMaxGroup ≤ child.length then (false, st)
      else
        let child := child ++ [([], some (ircCasefold 64 nick))]
        let change := fun r : JsonRecord =>
          if nicks.isSome then r.setChild "nicks".toList child
          else r.add "nicks".toList ⟨.arr, child⟩
        (true, { st.edit rec.addr fun r => (change r).stamped nowMs with
          derivedStale := true, nGrouped := st.nGrouped + 1 })

/-- `accounts_group_del`. -/
def groupDel (name nick : Text) (nowMs : Int) : Bool × AccountStore :=
  match st.find name with
  | none => (false, st)
  | some rec =>
    let cf := ircCasefold 64 nick
    let child := ((rec.items.get "nicks".toList).map JsonItem.child).getD []
    if child.any fun x => x.2 == some cf then
      (true, { st.edit rec.addr fun r =>
          (r.setChild "nicks".toList (child.eraseP fun x => x.2 == some cf)).stamped nowMs with
        derivedStale := true, nGrouped := st.nGrouped - 1 })
    else (false, st)

/-- `accounts_apply_remote`, of what the text was parsed to. -/
def applyRemote (name : Text) (ts : Int) (parsed : Option JsonRecord) : AccountStore :=
  match parsed with
  | none => st
  | some r =>
    match r.getText "name".toList with
    | none => st
    | some nm =>
      if caseEq nm name = false then st
      else if ts ≤ st.updatedAt name ∧ (st.find name).isSome then st
      else
        let r := (r.delete "updated_at".toList).add "updated_at".toList (.number (JsonText.nearestDouble ts))
        let cf := ircCasefold 64 name
        let old := st.find name
        { data := (if old.isSome then st.data.eraseP fun x => x.key == cf else st.data) ++
            [⟨st.next, cf, r⟩]
          next := st.next + 1
          byName := idxPut (if old.isSome then idxDel st.byName cf else st.byName) cf st.next
          byNick := st.byNick
          byFp := st.byFp
          derivedStale := true
          nGrouped := st.nGrouped - (old.elim 0 fun o => o.items.groupSize) + r.groupSize }

/-- `accounts_apply_remote_delete`. -/
def applyRemoteDelete (name : Text) (ts : Int) : AccountStore :=
  if (st.find name).isSome ∧ st.updatedAt name < ts then st.drop name else st

/-! ## 4. Looking something up changes no record -/

theorem derive_data : st.derive.data = st.data := by
  unfold derive
  split <;> rfl

theorem derive_byName : st.derive.byName = st.byName := by
  unfold derive
  split <;> rfl

theorem ownerOfNick_data (nick : Text) : (st.ownerOfNick nick).2.data = st.data := by
  unfold ownerOfNick
  split
  · rfl
  · split
    · rfl
    · exact st.derive_data

theorem ownerOfNick_byName (nick : Text) : (st.ownerOfNick nick).2.byName = st.byName := by
  unfold ownerOfNick
  split
  · rfl
  · split
    · rfl
    · exact st.derive_byName

end AccountStore

end SekurIRCd
