/-
# The indexes of the account database

The index by name is kept with every change.  The ones by nick and by fingerprint are built when
they are read, unless nothing has changed since, and no nick is looked for while the counter says
that there is none.  The linear scans they stand for are `scanOwner` and `scanFingerprint`.

`account_indexes_match` says that they give the same in every run, lookups in between included,
from a file without two records under one key, in which nicks come as arrays of strings and
fingerprints have less than 72 bytes, as long as no name is registered twice and what comes from
other servers is like that, too.  Two records under one key are enough for them to differ
(`dropped_account_remains`): the index forgets both when one is dropped.
-/
import SekurIRCd.Services.AccountStore
import SekurIRCd.Lib.Runs
import Mathlib.Data.List.Find
import Mathlib.Data.List.Nodup

namespace SekurIRCd

open CLib

/-! ## 1. An index in which the first wins

An index puts in a key only if it has none. So of several records with one key it leads to the
first. -/

/-- The keys of an index differ. -/
def KeysDiffer (ix : KeyIndex) : Prop := (ix.map Prod.fst).Nodup

theorem idxGet_append (ix : KeyIndex) (e : Text × Nat) (k : Text) :
    idxGet (ix ++ [e]) k = (idxGet ix k).or (if e.1 = k then some e.2 else none) := by
  rw [idxGet, idxGet, List.find?_append]
  cases ix.find? fun e => e.1 == k with
  | some x => rfl
  | none =>
    rw [List.find?_singleton]
    by_cases h : e.1 = k
    · simp [h]
    · simp [h]

theorem any_key_iff {ix : KeyIndex} {k : Text} :
    ix.any (fun e => e.1 == k) = true ↔ (idxGet ix k).isSome = true := by
  rw [idxGet, Option.isSome_map, List.find?_isSome, List.any_eq_true]

theorem idxGet_idxPut (ix : KeyIndex) {key k : Text} (hk : k.length < 72) (p : Nat) :
    idxGet (idxPut ix key p) k = (idxGet ix k).or (if key = k then some p else none) := by
  rw [idxPut]
  split
  · next hlong =>
    rw [if_neg (by rintro rfl; omega), Option.or_none]
  · split
    · next hany =>
      by_cases h : key = k
      · subst h
        obtain ⟨x, hx⟩ := Option.isSome_iff_exists.mp (any_key_iff.mp hany)
        rw [hx]
        rfl
      · rw [if_neg h, Option.or_none]
    · exact idxGet_append ix (key, p) k

theorem keysDiffer_idxPut {ix : KeyIndex} (h : KeysDiffer ix) (key : Text) (p : Nat) :
    KeysDiffer (idxPut ix key p) := by
  rw [idxPut]
  split
  · exact h
  · split
    · exact h
    · next hany =>
      rw [KeysDiffer, List.map_append, List.nodup_append]
      refine ⟨h, by simp, ?_⟩
      rintro a ha b hb rfl
      obtain ⟨e, he, rfl⟩ := List.mem_map.mp ha
      have hkey : e.1 = key := by simpa using hb
      exact hany (List.any_eq_true.mpr ⟨e, he, by simp [hkey]⟩)

theorem find?_eraseP_ne {α : Type*} {keyOf : α → Text} {l : List α} {key k : Text} (hne : k ≠ key) :
    (l.eraseP fun x => keyOf x == key).find? (fun x => keyOf x == k) =
      l.find? fun x => keyOf x == k := by
  induction l with
  | nil => rfl
  | cons x l ih =>
    by_cases hx : keyOf x = key
    · rw [List.eraseP_cons_of_pos (by simpa using hx), List.find?_cons_of_neg]
      simpa [hx] using hne.symm
    · rw [List.eraseP_cons_of_neg (by simpa using hx), List.find?_cons, List.find?_cons, ih]

/-- Where keys differ, what is taken out by its key is gone. -/
theorem find?_eraseP_self {α : Type*} {keyOf : α → Text} {l : List α} (h : (l.map keyOf).Nodup)
    (k : Text) : (l.eraseP fun x => keyOf x == k).find? (fun x => keyOf x == k) = none := by
  induction l with
  | nil => rfl
  | cons x l ih =>
    obtain ⟨hx, hl⟩ := List.nodup_cons.mp h
    by_cases hk : keyOf x = k
    · rw [List.eraseP_cons_of_pos (by simpa using hk), List.find?_eq_none]
      intro y hy he
      exact hx (List.mem_map.mpr ⟨y, hy, (beq_iff_eq.mp he).trans hk.symm⟩)
    · rw [List.eraseP_cons_of_neg (by simpa using hk), List.find?_cons_of_neg (by simpa using hk)]
      exact ih hl

theorem find?_eraseP {α : Type*} {keyOf : α → Text} {l : List α} (h : (l.map keyOf).Nodup)
    (key k : Text) : (l.eraseP fun x => keyOf x == key).find? (fun x => keyOf x == k) =
      if key = k then none else l.find? fun x => keyOf x == k := by
  split
  next hk => rw [hk, find?_eraseP_self h]
  next hk => exact find?_eraseP_ne (Ne.symm hk)

theorem idxGet_idxDel {ix : KeyIndex} (h : KeysDiffer ix) (key k : Text) :
    idxGet (idxDel ix key) k = if key = k then none else idxGet ix k := by
  rw [idxGet, idxGet, idxDel, find?_eraseP h]
  split <;> rfl

theorem keysDiffer_idxDel {ix : KeyIndex} (h : KeysDiffer ix) (key : Text) :
    KeysDiffer (idxDel ix key) :=
  h.sublist (List.eraseP_sublist.map _)

/-- What is put into an index one after the other is found by the first that has the key. -/
theorem idxGet_foldl {ps : List (Text × Nat)} {k : Text} (hk : k.length < 72) (ix : KeyIndex) :
    idxGet (ps.foldl (fun ix p => idxPut ix p.1 p.2) ix) k = (idxGet ix k).or (idxGet ps k) := by
  induction ps generalizing ix with
  | nil => simp [idxGet]
  | cons p ps ih =>
    rw [List.foldl_cons, ih, idxGet_idxPut ix hk, Option.or_assoc]
    congr 1
    by_cases h : p.1 = k
    · simp [idxGet, h]
    · simp [idxGet, h]

theorem keysDiffer_foldl {ps : List (Text × Nat)} {ix : KeyIndex} (h : KeysDiffer ix) :
    KeysDiffer (ps.foldl (fun ix p => idxPut ix p.1 p.2) ix) := by
  induction ps generalizing ix with
  | nil => exact h
  | cons p ps ih => exact ih (keysDiffer_idxPut h p.1 p.2)

/-! ## 2. The scans -/

/-- The grouped nicks of a record. -/
def JsonRecord.nicks (r : JsonRecord) : List Text :=
  ((r.getArray "nicks".toList).getD []).filterMap id

/-- The account of that name, or else the first that has it among its nicks. -/
def scanOwner (data : List StoredRecord) (nick : Text) : Option Text :=
  let cf := ircCasefold 64 nick
  match data.find? fun r => r.key == cf with
  | some own => own.items.getText "name".toList
  | none => (data.find? fun r => r.items.nicks.contains cf).bind fun r =>
      r.items.getText "name".toList

/-- The first account with that fingerprint. -/
def scanFingerprint (data : List StoredRecord) (fp : Text) : Option Text :=
  if fp = [] then none
  else (data.find? fun r => (r.items.getText "cert_fp".toList).any fun f => caseEq f fp).bind
    fun r => r.items.getText "name".toList

/-- The number of grouped nicks. -/
def totalGrouped (data : List StoredRecord) : Int :=
  (data.map fun r => (r.items.nicks.length : Int)).sum

/-- **The indexes give what the scans give**: the account of a nick, the account of a fingerprint,
and how many nicks are grouped. The scans are what the indexes were put in place of. -/
structure Matches (st : AccountStore) : Prop where
  owner : ∀ nick, (st.ownerOfNick nick).1 = scanOwner st.data nick
  fingerprint : ∀ fp, fp.length < 72 → (st.findByFingerprint fp).1 = scanFingerprint st.data fp
  grouped : st.nGrouped = totalGrouped st.data

/-- A record as NickServ writes them: it has a name, its nicks are an array of strings, and its
fingerprint has less than 72 bytes. -/
structure Regular (r : JsonRecord) : Prop where
  name : (r.getText "name".toList).isSome = true
  nicks : ∀ x ∈ r, x.1 = "nicks".toList → x.2.kind = .arr ∧ ∀ c ∈ x.2.child, c.2.isSome = true
  fingerprint : ∀ x ∈ r, x.1 = "cert_fp".toList → ∀ f, x.2.kind = .str f → f.length < 72

/-! ## 3. Indexes that are built -/

/-- The nicks with where they lead to. -/
def nickPairs (data : List StoredRecord) : List (Text × Nat) :=
  data.flatMap fun r => r.items.nicks.map fun n => (n, r.addr)

def fingerprintPairs (data : List StoredRecord) : List (Text × Nat) :=
  data.flatMap fun r => ((r.items.getText "cert_fp".toList).map fun f =>
    (fingerprintKey f, r.addr)).toList

theorem putNicks_eq (ix : KeyIndex) (r : StoredRecord) :
    putNicks ix r = (r.items.nicks.map fun n => (n, r.addr)).foldl
      (fun ix p => idxPut ix p.1 p.2) ix := by
  rw [putNicks, JsonRecord.nicks, List.foldl_map, List.foldl_filterMap]
  congr 1
  funext ix n
  cases n <;> rfl

theorem foldl_putNicks (data : List StoredRecord) (ix : KeyIndex) :
    data.foldl putNicks ix = (nickPairs data).foldl (fun ix p => idxPut ix p.1 p.2) ix := by
  induction data generalizing ix with
  | nil => rfl
  | cons r data ih =>
    rw [List.foldl_cons, ih, putNicks_eq, nickPairs, nickPairs, List.flatMap_cons,
      List.foldl_append]

theorem foldl_putFingerprint (data : List StoredRecord) (ix : KeyIndex) :
    data.foldl putFingerprint ix =
      (fingerprintPairs data).foldl (fun ix p => idxPut ix p.1 p.2) ix := by
  induction data generalizing ix with
  | nil => rfl
  | cons r data ih =>
    rw [List.foldl_cons, ih, fingerprintPairs, fingerprintPairs, List.flatMap_cons,
      List.foldl_append, putFingerprint]
    cases r.items.getText "cert_fp".toList <;> rfl

/-- Of the pairs of records, the first with a key is one of the first record that has it. -/
theorem idxGet_flatMap {data : List StoredRecord} {keysOf : StoredRecord → List Text} (k : Text) :
    idxGet (data.flatMap fun r => (keysOf r).map fun n => (n, r.addr)) k =
      (data.find? fun r => (keysOf r).contains k).map StoredRecord.addr := by
  induction data with
  | nil => rfl
  | cons r data ih =>
    rw [List.flatMap_cons]
    by_cases h : k ∈ keysOf r
    · rw [List.find?_cons_of_pos (by simpa using h)]
      rw [idxGet, List.find?_append]
      cases hx : ((keysOf r).map fun n => (n, r.addr)).find? (fun e => e.1 == k) with
      | none =>
        have hnot := List.find?_eq_none.mp hx (k, r.addr) (List.mem_map.mpr ⟨k, h, rfl⟩)
        exact absurd (beq_self_eq_true k) hnot
      | some x =>
        obtain ⟨n, -, rfl⟩ := List.mem_map.mp (List.mem_of_find?_eq_some hx)
        rfl
    · rw [List.find?_cons_of_neg (by simpa using h), ← ih, idxGet, idxGet, List.find?_append]
      have hnone : ((keysOf r).map fun n => (n, r.addr)).find? (fun e => e.1 == k) = none := by
        rw [List.find?_eq_none]
        intro x hx hxk
        obtain ⟨n, hn, rfl⟩ := List.mem_map.mp hx
        have hnk : n = k := by simpa using hxk
        exact h (hnk ▸ hn)
      rw [hnone, Option.none_or]

/-- What a fingerprint finds once it is indexed. -/
theorem fingerprintPairs_eq (data : List StoredRecord) :
    fingerprintPairs data = data.flatMap fun r =>
      ((r.items.getText "cert_fp".toList).map fingerprintKey).toList.map fun n => (n, r.addr) := by
  rw [fingerprintPairs]
  congr 1
  funext r
  cases r.items.getText "cert_fp".toList <;> rfl

theorem totalGrouped_nonneg (data : List StoredRecord) : 0 ≤ totalGrouped data := by
  induction data with
  | nil => exact le_rfl
  | cons x data ih =>
    have hsum : totalGrouped (x :: data) = x.items.nicks.length + totalGrouped data := rfl
    omega

/-- Where the count is zero, nobody has a grouped nick. -/
theorem nicks_of_total {data : List StoredRecord} (hzero : totalGrouped data ≤ 0) :
    ∀ r ∈ data, r.items.nicks = [] := by
  induction data with
  | nil => exact fun _ hr => absurd hr List.not_mem_nil
  | cons x data ih =>
    have hsum : totalGrouped (x :: data) = x.items.nicks.length + totalGrouped data := rfl
    have hrest := totalGrouped_nonneg data
    intro r hr
    rcases List.mem_cons.mp hr with rfl | hr
    · exact List.length_eq_zero_iff.mp (by omega)
    · exact ih (by omega) r hr

theorem Regular.fingerprint_length {r : JsonRecord} (h : Regular r) {f : Text}
    (hf : r.getText "cert_fp".toList = some f) : f.length < 72 := by
  unfold JsonRecord.getText at hf
  split at hf
  · next s child hget =>
    obtain ⟨x, hx, hitem⟩ := Option.map_eq_some_iff.mp hget
    have hkey : x.1 = "cert_fp".toList := by simpa using List.find?_some hx
    rw [← Option.some.inj hf]
    exact h.fingerprint x (List.mem_of_find?_eq_some hx) hkey s (by rw [hitem])
  · exact absurd hf (by simp)

/-! ## 4. The invariant

The index by name is kept with every change, and needs an invariant. The built ones need only that
they are thrown away in time. -/

/-- **The index by name is in step with the records**: keys and addresses differ, and the index
gives the address of the record that a scan for the key finds. -/
structure Named (st : AccountStore) : Prop where
  addrs : (st.data.map StoredRecord.addr).Nodup
  fresh : ∀ r ∈ st.data, r.addr < st.next
  keys : (st.data.map StoredRecord.key).Nodup
  differ : KeysDiffer st.byName
  byName : ∀ k : Text, k.length < 72 →
    idxGet st.byName k = (st.data.find? fun r => r.key == k).map StoredRecord.addr

/-- The store as every operation leaves it. -/
structure Indexed (st : AccountStore) : Prop extends Named st where
  derived : st.derivedStale = false →
    st.byNick = st.data.foldl putNicks [] ∧ st.byFp = st.data.foldl putFingerprint []
  grouped : st.nGrouped = totalGrouped st.data
  regular : ∀ r ∈ st.data, Regular r.items

theorem length_ircCasefold (name : Text) : (ircCasefold 64 name).length < 72 := by
  have h := clip_length_le 64 name
  rw [ircCasefold, lower_length]
  omega

namespace Named

variable {st st' : AccountStore} (h : Named st)

include h

theorem deref_addr {r : StoredRecord} (hr : r ∈ st.data) : st.deref r.addr = some r := by
  rw [AccountStore.deref]
  cases hf : st.data.find? fun x => x.addr == r.addr with
  | none => exact absurd (beq_self_eq_true r.addr) (List.find?_eq_none.mp hf r hr)
  | some x =>
    have hx : x.addr = r.addr := by simpa using List.find?_some hf
    rw [List.inj_on_of_nodup_map h.addrs (List.mem_of_find?_eq_some hf) hr hx]

/-- A pointer from a scan leads to what the scan found. -/
theorem bind_deref {p : StoredRecord → Bool} :
    ((st.data.find? p).map StoredRecord.addr).bind st.deref = st.data.find? p := by
  cases hf : st.data.find? p with
  | none => rfl
  | some r => exact h.deref_addr (List.mem_of_find?_eq_some hf)

/-- `find` is a scan. -/
theorem find_eq (name : Text) :
    st.find name = st.data.find? fun r => r.key == ircCasefold 64 name := by
  rw [AccountStore.find, h.byName _ (length_ircCasefold name), h.bind_deref]

theorem find_mem {name : Text} {r : StoredRecord} (hr : st.find name = some r) : r ∈ st.data := by
  rw [h.find_eq] at hr
  exact List.mem_of_find?_eq_some hr

theorem key_new {name : Text} (hnone : st.find name = none) :
    ∀ r ∈ st.data, r.key ≠ ircCasefold 64 name := by
  rw [h.find_eq, List.find?_eq_none] at hnone
  exact fun r hr he => hnone r hr (by simp [he])

/-- A key's record is taken out, of the records and of the index. -/
theorem erase {key : Text} (hdata : st'.data = st.data.eraseP fun r => r.key == key)
    (hnext : st'.next = st.next) (hbyName : st'.byName = idxDel st.byName key) : Named st' := by
  have hsub : (st.data.eraseP fun r => r.key == key).Sublist st.data := List.eraseP_sublist
  refine ⟨?_, ?_, ?_, ?_, fun k hk => ?_⟩
  · rw [hdata]
    exact h.addrs.sublist (hsub.map _)
  · rw [hdata, hnext]
    exact fun r hr => h.fresh r (hsub.subset hr)
  · rw [hdata]
    exact h.keys.sublist (hsub.map _)
  · rw [hbyName]
    exact keysDiffer_idxDel h.differ key
  · rw [hdata, hbyName, idxGet_idxDel h.differ, h.byName k hk, find?_eraseP h.keys]
    split <;> rfl

/-- A record with a new key is put behind the others, and into the index. -/
theorem append {key : Text} {items : JsonRecord} (hnew : ∀ r ∈ st.data, r.key ≠ key)
    (hdata : st'.data = st.data ++ [⟨st.next, key, items⟩]) (hnext : st'.next = st.next + 1)
    (hbyName : st'.byName = idxPut st.byName key st.next) : Named st' := by
  refine ⟨?_, ?_, ?_, ?_, fun k hk => ?_⟩
  · rw [hdata, List.map_append, List.nodup_append]
    refine ⟨h.addrs, by simp, ?_⟩
    intro a ha b hb
    obtain ⟨r, hr, rfl⟩ := List.mem_map.mp ha
    obtain rfl : b = st.next := by simpa using hb
    exact (h.fresh r hr).ne
  · rw [hdata, hnext]
    intro r hr
    rcases List.mem_append.mp hr with hr | hr
    · exact (h.fresh r hr).trans (Nat.lt_succ_self _)
    · obtain rfl := List.mem_singleton.mp hr
      exact Nat.lt_succ_self _
  · rw [hdata, List.map_append, List.nodup_append]
    refine ⟨h.keys, by simp, ?_⟩
    intro a ha b hb
    obtain ⟨r, hr, rfl⟩ := List.mem_map.mp ha
    obtain rfl : b = key := by simpa using hb
    exact hnew r hr
  · rw [hbyName]
    exact keysDiffer_idxPut h.differ key st.next
  · rw [hdata, hbyName, idxGet_idxPut _ hk, h.byName k hk, List.find?_append]
    cases st.data.find? fun r => r.key == k with
    | some r => rfl
    | none =>
      by_cases hkey : key = k
      · simp [hkey]
      · simp [hkey]

theorem erased (key : Text) : ∀ r ∈ st.data.eraseP (fun r => r.key == key), r.key ≠ key := by
  have hnone := find?_eraseP h.keys key key
  rw [if_pos rfl, List.find?_eq_none] at hnone
  exact fun r hr he => hnone r hr (by simp [he])

end Named

namespace Indexed

variable {st : AccountStore} (h : Indexed st)

include h

theorem derive : Indexed st.derive := by
  unfold AccountStore.derive
  split
  · exact { h with derived := fun _ => ⟨rfl, rfl⟩ }
  · exact h

theorem derive_indexes : st.derive.byNick = st.data.foldl putNicks [] ∧
    st.derive.byFp = st.data.foldl putFingerprint [] := by
  unfold AccountStore.derive
  split
  · exact ⟨rfl, rfl⟩
  · next hstale => exact h.derived (Bool.eq_false_of_not_eq_true hstale)

theorem ownerOfNick (nick : Text) : Indexed (st.ownerOfNick nick).2 := by
  unfold AccountStore.ownerOfNick
  split
  · exact h
  · split
    · exact h
    · exact h.derive

theorem findByFingerprint (fp : Text) : Indexed (st.findByFingerprint fp).2 := by
  unfold AccountStore.findByFingerprint
  split
  · exact h
  · exact h.derive

/-- **The indexes give what the scans give.** -/
theorem agree : Matches st := by
  have hderef : st.derive.deref = st.deref := by
    funext addr
    rw [AccountStore.deref, AccountStore.deref, st.derive_data]
  refine ⟨fun nick => ?_, fun fp hfp => ?_, h.grouped⟩
  · rw [AccountStore.ownerOfNick, scanOwner, h.find_eq]
    dsimp only
    cases hown : st.data.find? fun r => r.key == ircCasefold 64 nick with
    | some own => rfl
    | none =>
      dsimp only
      split
      · next hzero =>
        -- the counter is right, so there is no nick to look for
        have hnone : st.data.find? (fun r => r.items.nicks.contains (ircCasefold 64 nick)) =
            none := by
          rw [List.find?_eq_none]
          intro r hr
          rw [nicks_of_total (h.grouped ▸ hzero) r hr]
          simp
        rw [hnone]
        rfl
      · rw [hderef, h.derive_indexes.1, foldl_putNicks, idxGet_foldl (length_ircCasefold nick),
          nickPairs, idxGet_flatMap, show idxGet [] (ircCasefold 64 nick) = none from rfl,
          Option.none_or, h.bind_deref]
  · rw [AccountStore.findByFingerprint, scanFingerprint]
    split
    · rfl
    · have hlen : (fingerprintKey fp).length < 72 := by
        have hl := clip_length_le 72 fp
        rw [fingerprintKey, lower_length]
        omega
      dsimp only
      rw [hderef, h.derive_indexes.2, foldl_putFingerprint, idxGet_foldl hlen,
        fingerprintPairs_eq, idxGet_flatMap, show idxGet [] (fingerprintKey fp) = none from rfl,
        Option.none_or, h.bind_deref]
      congr 1
      refine List.find?_congr fun r hr => ?_
      cases hf : r.items.getText "cert_fp".toList with
      | none => rfl
      | some f =>
        have hkey : ∀ {f : Text}, f.length < 72 → fingerprintKey f = lower f :=
          fun hlt => congrArg lower (clip_of_fits hlt)
        rw [Option.map_some, Option.toList_some, Option.any_some,
          hkey ((h.regular r hr).fingerprint_length hf), hkey hfp, Bool.eq_iff_iff, caseEq_iff]
        simp [eq_comm]

end Indexed

/-! ## 5. Edits of a record -/

namespace JsonRecord

variable {r : JsonRecord} {key k : Text}

theorem get_delete (hne : key ≠ k) : (r.delete k).get key = r.get key := by
  rw [get, get, delete, find?_eraseP_ne hne]

theorem get_add (hne : key ≠ k) (item : JsonItem) : (r.add k item).get key = r.get key := by
  have hnot : [(k, item)].find? (fun x => x.1 == key) = none :=
    List.find?_cons_of_neg (by simpa using Ne.symm hne)
  rw [get, get, add, List.find?_append, hnot, Option.or_none]

theorem get_add_of_none (hnone : r.get key = none) (item : JsonItem) :
    (r.add key item).get key = some item := by
  have hr : r.find? (fun x => x.1 == key) = none := Option.map_eq_none_iff.mp hnone
  rw [get, add, List.find?_append, hr, Option.none_or, List.find?_cons_of_pos (by simp)]
  rfl

theorem get_add_isSome (h : (r.get key).isSome = true) (item : JsonItem) :
    (r.add k item).get key = r.get key := by
  obtain ⟨x, hx⟩ := Option.isSome_iff_exists.mp h
  obtain ⟨e, he, -⟩ := Option.map_eq_some_iff.mp hx
  rw [get, get, add, List.find?_append, he, Option.some_or]

theorem get_setChild (child : List (Text × Option Text)) :
    (r.setChild k child).get key =
      if key = k then (r.get k).map fun i => ⟨i.kind, child⟩ else r.get key := by
  induction r with
  | nil => by_cases h : key = k <;> simp [setChild, get]
  | cons x r ih =>
    rw [setChild]
    by_cases hx : x.1 = k
    · rw [if_pos (by simp [hx])]
      by_cases h : key = k
      · subst h
        simp [get, hx]
      · have hne : ¬ x.1 = key := by rw [hx]; exact Ne.symm h
        rw [if_neg h, get, get, List.find?_cons_of_neg (by simpa using hne),
          List.find?_cons_of_neg (by simpa using hne)]
    · rw [if_neg (by simpa using hx)]
      by_cases hk : x.1 = key
      · have hne : ¬ key = k := by rw [← hk]; exact hx
        rw [if_neg hne, get, get, List.find?_cons_of_pos (by simp [hk]),
          List.find?_cons_of_pos (by simp [hk])]
      · have hskip : ∀ l : JsonRecord, get (x :: l) key = get l key := by
          intro l
          rw [get, get, List.find?_cons_of_neg (by simpa using hk)]
        have hskip' : get (x :: r) k = get r k := by
          rw [get, get, List.find?_cons_of_neg (by simpa using hx)]
        rw [hskip, hskip, hskip', ih]

theorem mem_setChild {child : List (Text × Option Text)} {x : Text × JsonItem}
    (h : x ∈ r.setChild k child) : x ∈ r ∨ ∃ y ∈ r, y.1 = k ∧ x = (y.1, ⟨y.2.kind, child⟩) := by
  induction r with
  | nil => exact absurd h List.not_mem_nil
  | cons y r ih =>
    rw [setChild] at h
    split at h
    · next hy =>
      rcases List.mem_cons.mp h with rfl | h
      · exact Or.inr ⟨y, List.mem_cons_self, by simpa using hy, rfl⟩
      · exact Or.inl (List.mem_cons_of_mem _ h)
    · rcases List.mem_cons.mp h with rfl | h
      · exact Or.inl List.mem_cons_self
      · exact (ih h).imp (List.mem_cons_of_mem _)
          fun ⟨z, hz, hx⟩ => ⟨z, List.mem_cons_of_mem _ hz, hx⟩

theorem getText_congr {r' : JsonRecord} (h : r'.get key = r.get key) :
    r'.getText key = r.getText key := by
  rw [getText, getText, h]

theorem nicks_congr {r' : JsonRecord} (h : r'.get "nicks".toList = r.get "nicks".toList) :
    r'.nicks = r.nicks := by
  rw [nicks, nicks, getArray, getArray, h]

end JsonRecord

namespace Regular

variable {r : JsonRecord} (h : Regular r)

include h

theorem delete {k : Text} (hk : k ≠ "name".toList) : Regular (r.delete k) where
  name := by
    rw [JsonRecord.getText_congr (JsonRecord.get_delete (Ne.symm hk))]
    exact h.name
  nicks := fun x hx => h.nicks x (List.mem_of_mem_eraseP hx)
  fingerprint := fun x hx => h.fingerprint x (List.mem_of_mem_eraseP hx)

theorem add {k : Text} {item : JsonItem}
    (hnicks : k = "nicks".toList → item.kind = .arr ∧ ∀ c ∈ item.child, c.2.isSome = true)
    (hfp : k = "cert_fp".toList → ∀ f, item.kind = .str f → f.length < 72) :
    Regular (r.add k item) where
  name := by
    have hsome : (r.get "name".toList).isSome = true := by
      by_contra hnone
      have hn := Option.not_isSome_iff_eq_none.mp hnone
      have hname := h.name
      rw [JsonRecord.getText, hn] at hname
      exact absurd hname (by simp)
    rw [JsonRecord.getText_congr (JsonRecord.get_add_isSome hsome item)]
    exact h.name
  nicks := by
    intro x hx hkey
    rcases List.mem_append.mp hx with hx | hx
    · exact h.nicks x hx hkey
    · obtain rfl := List.mem_singleton.mp hx
      exact hnicks hkey
  fingerprint := by
    intro x hx hkey
    rcases List.mem_append.mp hx with hx | hx
    · exact h.fingerprint x hx hkey
    · obtain rfl := List.mem_singleton.mp hx
      exact hfp hkey

theorem setChild {child : List (Text × Option Text)} (hchild : ∀ c ∈ child, c.2.isSome = true) :
    Regular (r.setChild "nicks".toList child) where
  name := by
    have hne : "name".toList ≠ "nicks".toList := by decide
    have hget := @JsonRecord.get_setChild r "name".toList "nicks".toList child
    rw [if_neg hne] at hget
    rw [JsonRecord.getText_congr hget]
    exact h.name
  nicks := by
    intro x hx hkey
    rcases JsonRecord.mem_setChild hx with hx | ⟨y, hy, hk, rfl⟩
    · exact h.nicks x hx hkey
    · exact ⟨(h.nicks y hy hk).1, hchild⟩
  fingerprint := by
    intro x hx hkey
    rcases JsonRecord.mem_setChild hx with hx | ⟨y, hy, hk, rfl⟩
    · exact h.fingerprint x hx hkey
    · exact absurd (hk.symm.trans hkey) (by decide)

end Regular

/-- The items an index is built from. -/
structure SameKeys (r r' : JsonRecord) : Prop where
  nicks : r'.get "nicks".toList = r.get "nicks".toList
  fingerprint : r'.get "cert_fp".toList = r.get "cert_fp".toList

/-- The keys that no index and no name is read from. -/
def OtherKey (k : Text) : Prop :=
  k ≠ "name".toList ∧ k ≠ "nicks".toList ∧ k ≠ "cert_fp".toList

instance (k : Text) : Decidable (OtherKey k) := inferInstanceAs (Decidable (_ ∧ _ ∧ _))

/-- An edit that is nothing to the indexes. -/
def Inert (f : JsonRecord → JsonRecord) : Prop := ∀ r, Regular r → Regular (f r) ∧ SameKeys r (f r)

theorem inert_id : Inert fun r => r := fun _ h => ⟨h, rfl, rfl⟩

theorem Inert.delete {f : JsonRecord → JsonRecord} (hf : Inert f) {k : Text} (hk : OtherKey k) :
    Inert fun r => (f r).delete k := by
  intro r hr
  obtain ⟨hreg, hsame⟩ := hf r hr
  exact ⟨hreg.delete hk.1, (JsonRecord.get_delete (Ne.symm hk.2.1)).trans hsame.nicks,
    (JsonRecord.get_delete (Ne.symm hk.2.2)).trans hsame.fingerprint⟩

theorem Inert.add {f : JsonRecord → JsonRecord} (hf : Inert f) {k : Text} (hk : OtherKey k)
    (item : JsonRecord → JsonItem) : Inert fun r => (f r).add k (item r) := by
  intro r hr
  obtain ⟨hreg, hsame⟩ := hf r hr
  exact ⟨hreg.add (fun e => absurd e hk.2.1) (fun e => absurd e hk.2.2),
    (JsonRecord.get_add (Ne.symm hk.2.1) _).trans hsame.nicks,
    (JsonRecord.get_add (Ne.symm hk.2.2) _).trans hsame.fingerprint⟩

/-- The new `updated_at` is nothing to the indexes. -/
theorem inert_stamped (nowMs : Int) : Inert fun r => r.stamped nowMs :=
  (inert_id.delete (by decide)).add (by decide) _

theorem regular_stamped {r : JsonRecord} (h : Regular r) (nowMs : Int) :
    Regular (r.stamped nowMs) :=
  (inert_stamped nowMs r h).1

theorem sameKeys_stamped {r : JsonRecord} (h : Regular r) (nowMs : Int) :
    SameKeys r (r.stamped nowMs) := (inert_stamped nowMs r h).2

theorem Inert.stamped {f : JsonRecord → JsonRecord} (hf : Inert f) (nowMs : Int) :
    Inert fun r => (f r).stamped nowMs := by
  intro r hr
  obtain ⟨hreg, hsame⟩ := hf r hr
  have hst := sameKeys_stamped hreg nowMs
  exact ⟨regular_stamped hreg nowMs, hst.nicks.trans hsame.nicks,
    hst.fingerprint.trans hsame.fingerprint⟩

theorem nicks_stamped (r : JsonRecord) (nowMs : Int) : (r.stamped nowMs).nicks = r.nicks :=
  have hdel := @JsonRecord.get_delete r "nicks".toList "updated_at".toList (by decide)
  JsonRecord.nicks_congr ((JsonRecord.get_add (by decide) _).trans hdel)

/-- A new record, which has no nicks and no fingerprint. -/
theorem registered_record (name hash : Text) (nowMs : Int) :
    let items : JsonRecord :=
      [("name".toList, .text name), ("pw_hash".toList, .text hash),
        ("created_at".toList, .number (nowMs / 1000))]
    Regular (items.stamped nowMs) ∧ (items.stamped nowMs).nicks = [] ∧
      (items.stamped nowMs).getText "cert_fp".toList = none := by
  intro items
  have hreg : Regular items := by
    refine ⟨rfl, ?_, ?_⟩
    all_goals
      intro x hx hkey
      simp only [items, List.mem_cons, List.not_mem_nil, or_false] at hx
      rcases hx with rfl | rfl | rfl <;>
      · dsimp only at hkey
        exact absurd hkey (by decide)
  exact ⟨regular_stamped hreg nowMs, nicks_stamped items nowMs,
    JsonRecord.getText_congr (sameKeys_stamped hreg nowMs).fingerprint⟩

/-! ## 6. What each operation does to the invariant -/

/-- One record is edited. -/
def editAt (addr : Nat) (f : JsonRecord → JsonRecord) (r : StoredRecord) : StoredRecord :=
  if r.addr = addr then { r with items := f r.items } else r

theorem editAt_addr (addr : Nat) (f : JsonRecord → JsonRecord) (r : StoredRecord) :
    (editAt addr f r).addr = r.addr := by
  unfold editAt
  split <;> rfl

theorem editAt_key (addr : Nat) (f : JsonRecord → JsonRecord) (r : StoredRecord) :
    (editAt addr f r).key = r.key := by
  unfold editAt
  split <;> rfl

theorem totalGrouped_append (a b : List StoredRecord) :
    totalGrouped (a ++ b) = totalGrouped a + totalGrouped b := by
  rw [totalGrouped, totalGrouped, totalGrouped, List.map_append, List.sum_append]

/-- The nicks are the children of the array that are strings. -/
theorem JsonRecord.nicks_of_item {r : JsonRecord} {item : JsonItem}
    (hget : r.get "nicks".toList = some item) (harr : item.kind = .arr) :
    r.nicks = item.child.filterMap Prod.snd := by
  obtain ⟨kind, child⟩ := item
  dsimp only at harr
  subst harr
  rw [nicks, getArray, hget]
  exact List.filterMap_map

/-- Where all children are strings, there are as many nicks. -/
theorem JsonRecord.nicks_length {r : JsonRecord} {item : JsonItem}
    (hget : r.get "nicks".toList = some item) (harr : item.kind = .arr)
    (hall : ∀ c ∈ item.child, c.2.isSome = true) : r.nicks.length = item.child.length := by
  rw [nicks_of_item hget harr]
  generalize item.child = child at hall
  induction child with
  | nil => rfl
  | cons c child ih =>
    obtain ⟨t, ht⟩ := Option.isSome_iff_exists.mp (hall c List.mem_cons_self)
    rw [List.filterMap_cons_some ht, List.length_cons,
      ih fun c' hc' => hall c' (List.mem_cons_of_mem _ hc'), List.length_cons]

theorem Regular.nicks_item {r : JsonRecord} (h : Regular r) {item : JsonItem}
    (hget : r.get "nicks".toList = some item) :
    item.kind = .arr ∧ ∀ c ∈ item.child, c.2.isSome = true := by
  obtain ⟨x, hx, rfl⟩ := Option.map_eq_some_iff.mp hget
  have hkey : x.1 = "nicks".toList := by simpa using List.find?_some hx
  exact h.nicks x (List.mem_of_find?_eq_some hx) hkey

/-- `cJSON_GetArraySize` counts the nicks. -/
theorem Regular.groupSize_eq {r : JsonRecord} (h : Regular r) : r.groupSize = r.nicks.length := by
  cases hget : r.get "nicks".toList with
  | none =>
    rw [JsonRecord.groupSize, JsonRecord.nicks, JsonRecord.getArray, hget]
    rfl
  | some item =>
    obtain ⟨harr, hall⟩ := h.nicks_item hget
    rw [JsonRecord.nicks_length hget harr hall, JsonRecord.groupSize, JsonRecord.getArray, hget]
    obtain ⟨kind, child⟩ := item
    dsimp only at harr
    subst harr
    simp

theorem totalGrouped_edit {data : List StoredRecord} (hnodup : (data.map StoredRecord.addr).Nodup)
    {r : StoredRecord} (hr : r ∈ data) (f : JsonRecord → JsonRecord) :
    totalGrouped (data.map (editAt r.addr f)) =
      totalGrouped data - r.items.nicks.length + (f r.items).nicks.length := by
  induction data with
  | nil => exact absurd hr List.not_mem_nil
  | cons x data ih =>
    have hcons : ∀ (y : StoredRecord) (l : List StoredRecord),
        totalGrouped (y :: l) = y.items.nicks.length + totalGrouped l := fun _ _ => rfl
    obtain ⟨hnot, hrest⟩ := List.nodup_cons.mp hnodup
    rw [List.map_cons, hcons, hcons]
    rcases List.mem_cons.mp hr with rfl | hr
    · have hsame : data.map (editAt r.addr f) = data := by
        refine (List.map_congr_left fun y hy => ?_).trans (List.map_id data)
        have hne : y.addr ≠ r.addr := fun he => hnot (he ▸ List.mem_map_of_mem hy)
        rw [editAt, if_neg hne, id_eq]
      rw [hsame, editAt, if_pos rfl]
      dsimp only
      omega
    · have hne : x.addr ≠ r.addr := fun he => hnot (he ▸ List.mem_map_of_mem hr)
      rw [ih hrest hr, editAt, if_neg hne]
      omega

namespace Indexed

variable {st : AccountStore} (h : Indexed st)

include h

/-- A record is edited: the counter follows, and the built indexes are thrown away if they could
have changed. -/
theorem edit {r : StoredRecord} (hr : r ∈ st.data) {f : JsonRecord → JsonRecord}
    (hreg : Regular (f r.items)) {stale : Bool}
    (hstale : stale = false → st.derivedStale = false ∧ SameKeys r.items (f r.items)) :
    Indexed { st.edit r.addr f with
      derivedStale := stale
      nGrouped := st.nGrouped - r.items.nicks.length + (f r.items).nicks.length } := by
  have hown : ∀ x ∈ st.data, x.addr = r.addr → x = r :=
    fun x hx he => List.inj_on_of_nodup_map h.addrs hx hr he
  have hdata : (st.edit r.addr f).data = st.data.map (editAt r.addr f) := rfl
  have hput : stale = false → ∀ x ∈ st.data, ∀ ix : KeyIndex,
      putNicks ix (editAt r.addr f x) = putNicks ix x ∧
        putFingerprint ix (editAt r.addr f x) = putFingerprint ix x := by
    intro hs x hx ix
    obtain ⟨-, hsame⟩ := hstale hs
    unfold editAt
    split
    · next he =>
      obtain rfl := hown x hx he
      refine ⟨?_, ?_⟩
      · rw [putNicks_eq, putNicks_eq]
        dsimp only
        rw [JsonRecord.nicks_congr hsame.nicks]
      · rw [putFingerprint, putFingerprint]
        dsimp only
        rw [JsonRecord.getText_congr hsame.fingerprint]
    · exact ⟨rfl, rfl⟩
  have hfold : ∀ {put : KeyIndex → StoredRecord → KeyIndex} (l : List StoredRecord),
      (∀ x ∈ l, ∀ ix, put ix (editAt r.addr f x) = put ix x) → ∀ ix,
        (l.map (editAt r.addr f)).foldl put ix = l.foldl put ix := by
    intro put l
    induction l with
    | nil => exact fun _ _ => rfl
    | cons x l ih =>
      intro hl ix
      rw [List.map_cons, List.foldl_cons, List.foldl_cons, hl x List.mem_cons_self,
        ih fun y hy => hl y (List.mem_cons_of_mem _ hy)]
  refine ⟨⟨?_, ?_, ?_, ?_, ?_⟩, ?_, ?_, ?_⟩
  · change ((st.data.map (editAt r.addr f)).map StoredRecord.addr).Nodup
    rw [List.map_map, show StoredRecord.addr ∘ editAt r.addr f = StoredRecord.addr from
      funext (editAt_addr r.addr f)]
    exact h.addrs
  · intro x hx
    obtain ⟨y, hy, rfl⟩ := List.mem_map.mp hx
    exact (editAt_addr r.addr f y).le.trans_lt (h.fresh y hy)
  · change ((st.data.map (editAt r.addr f)).map StoredRecord.key).Nodup
    rw [List.map_map, show StoredRecord.key ∘ editAt r.addr f = StoredRecord.key from
      funext (editAt_key r.addr f)]
    exact h.keys
  · exact h.differ
  · intro k hk
    have hkey : (fun x : StoredRecord => x.key == k) ∘ editAt r.addr f = fun x => x.key == k :=
      funext fun x => congrArg (· == k) (editAt_key r.addr f x)
    change idxGet st.byName k =
      ((st.data.map (editAt r.addr f)).find? fun x => x.key == k).map StoredRecord.addr
    rw [List.find?_map, hkey, Option.map_map, show StoredRecord.addr ∘ editAt r.addr f =
      StoredRecord.addr from funext (editAt_addr r.addr f), h.byName k hk]
  · intro hs
    obtain ⟨hnot, -⟩ := hstale hs
    obtain ⟨hnick, hfp⟩ := h.derived hnot
    exact ⟨hnick.trans (hfold _ (fun x hx ix => (hput hs x hx ix).1) []).symm,
      hfp.trans (hfold _ (fun x hx ix => (hput hs x hx ix).2) []).symm⟩
  · change st.nGrouped - r.items.nicks.length + (f r.items).nicks.length = _
    rw [hdata, totalGrouped_edit h.addrs hr f, h.grouped]
  · intro x hx
    obtain ⟨y, hy, rfl⟩ := List.mem_map.mp hx
    split
    · next he =>
      obtain rfl := hown y hy he
      exact hreg
    · exact h.regular y hy

/-- What a setter does that is nothing to the indexes. -/
theorem update {f : JsonRecord → JsonRecord} (hf : Inert f) (name : Text) (nowMs : Int) :
    Indexed (st.update name nowMs f) := by
  unfold AccountStore.update
  split
  · exact h
  · next r hr =>
    have hmem := h.find_mem hr
    obtain ⟨hreg, hsame⟩ := hf.stamped nowMs r.items (h.regular r hmem)
    have hedit := @Indexed.edit st h r hmem (fun items => (f items).stamped nowMs) hreg
      st.derivedStale fun hs => ⟨hs, hsame⟩
    rw [JsonRecord.nicks_congr hsame.nicks, Int.sub_add_cancel] at hedit
    exact hedit

theorem setHash (name hash : Text) (nowMs : Int) : Indexed (st.setHash name hash nowMs) :=
  h.update (((((inert_id.delete (by decide)).add (by decide) _).delete (by decide)).delete
    (by decide)).delete (by decide)) name nowMs

theorem setFingerprint (name : Text) (fp : Option Text) (nowMs : Int)
    (hfp : ∀ f, fp = some f → f.length < 72) : Indexed (st.setFingerprint name fp nowMs) := by
  unfold AccountStore.setFingerprint
  split
  · exact h
  · next r hr =>
    have hmem := h.find_mem hr
    have hdel := (h.regular r hmem).delete (k := "cert_fp".toList) (by decide)
    have hnicks : (r.items.delete "cert_fp".toList).get "nicks".toList =
        r.items.get "nicks".toList := JsonRecord.get_delete (by decide)
    have hedit : ∀ {f : JsonRecord → JsonRecord}, Regular (f r.items) →
        (f r.items).get "nicks".toList = r.items.get "nicks".toList →
          Indexed { st.update name nowMs f with derivedStale := true } := by
      intro f hreg hget
      have he := @Indexed.edit st h r hmem (fun items => (f items).stamped nowMs)
        (regular_stamped hreg nowMs) true fun hs => absurd hs (by simp)
      rw [JsonRecord.nicks_congr ((sameKeys_stamped hreg nowMs).nicks.trans hget),
        Int.sub_add_cancel] at he
      rw [AccountStore.update, hr]
      exact he
    refine hedit ?_ ?_
    · dsimp only
      split
      · next c cs =>
        refine hdel.add (fun e => absurd e (by decide)) fun _ f hf => ?_
        rw [← JsonKind.str.inj hf]
        exact hfp _ rfl
      · exact hdel
    · dsimp only
      split
      · exact (JsonRecord.get_add (by decide) _).trans hnicks
      · exact hnicks

theorem drop (name : Text) : Indexed (st.drop name) := by
  unfold AccountStore.drop
  dsimp only
  split
  · exact h
  · next r hr =>
    have hmem := h.find_mem hr
    have hkey : r.key = ircCasefold 64 name := by
      rw [h.find_eq] at hr
      simpa using List.find?_some hr
    have hsub : (st.data.eraseP fun x => x.key == ircCasefold 64 name).Sublist st.data :=
      List.eraseP_sublist
    refine ⟨h.toNamed.erase rfl rfl rfl, fun hs => absurd hs (by simp), ?_,
      fun x hx => h.regular x (hsub.subset hx)⟩
    · obtain ⟨x, front, back, -, hx, hsplit, herase⟩ :=
        @List.exists_of_eraseP _ (fun x => x.key == ircCasefold 64 name) st.data r hmem
          (by simp [hkey])
      have hxr : x = r := by
        refine List.inj_on_of_nodup_map h.keys (by rw [hsplit]; simp) hmem ?_
        rw [hkey]
        simpa using hx
      dsimp only
      rw [herase, h.grouped, hsplit, hxr, totalGrouped_append, totalGrouped_append,
        (h.regular r hmem).groupSize_eq]
      have hcons : totalGrouped (r :: back) = r.items.nicks.length + totalGrouped back := rfl
      omega

theorem append {key : Text} {items : JsonRecord} (hreg : Regular items)
    (hnew : ∀ r ∈ st.data, r.key ≠ key) {stale : Bool}
    (hstale : stale = false → st.derivedStale = false ∧ items.nicks = [] ∧
      items.getText "cert_fp".toList = none) :
    Indexed { st with
      data := st.data ++ [⟨st.next, key, items⟩]
      next := st.next + 1
      byName := idxPut st.byName key st.next
      derivedStale := stale
      nGrouped := st.nGrouped + items.nicks.length } := by
  refine ⟨h.toNamed.append hnew rfl rfl rfl, ?_, ?_, ?_⟩
  · intro hs
    obtain ⟨hold, hnone, hfp⟩ := hstale hs
    obtain ⟨hnick, hf⟩ := h.derived hold
    refine ⟨?_, ?_⟩
    · dsimp only
      rw [List.foldl_append, ← hnick, List.foldl_cons, List.foldl_nil, putNicks_eq]
      dsimp only
      rw [hnone]
      rfl
    · dsimp only
      rw [List.foldl_append, ← hf, List.foldl_cons, List.foldl_nil, putFingerprint]
      dsimp only
      rw [hfp]
  · dsimp only
    rw [h.grouped, totalGrouped_append]
    have hone : totalGrouped [⟨st.next, key, items⟩] = items.nicks.length := Int.add_zero _
    rw [hone]
  · intro r hr
    rcases List.mem_append.mp hr with hr | hr
    · exact h.regular r hr
    · obtain rfl := List.mem_singleton.mp hr
      exact hreg

theorem registerHashed {name : Text} (hash : Text) (nowMs : Int)
    (hnew : ∀ r ∈ st.data, r.key ≠ ircCasefold 64 name) :
    Indexed (st.registerHashed name hash nowMs) := by
  obtain ⟨hreg, hnicks, hfp⟩ := registered_record name hash nowMs
  have happend := @Indexed.append st h (ircCasefold 64 name) _ hreg hnew st.derivedStale
    fun hs => ⟨hs, hnicks, hfp⟩
  rw [hnicks] at happend
  have hzero : st.nGrouped + (([] : List Text).length : Int) = st.nGrouped := Int.add_zero _
  rw [hzero] at happend
  exact happend

theorem applyRemoteDelete (name : Text) (ts : Int) : Indexed (st.applyRemoteDelete name ts) := by
  unfold AccountStore.applyRemoteDelete
  split
  · exact h.drop name
  · exact h

theorem applyRemote (name : Text) (ts : Int) {parsed : Option JsonRecord}
    (hparsed : ∀ r, parsed = some r → Regular r) : Indexed (st.applyRemote name ts parsed) := by
  unfold AccountStore.applyRemote
  split
  · exact h
  · next r =>
    split
    · exact h
    · split
      · exact h
      · split
        · exact h
        · have hnew : Regular ((r.delete "updated_at".toList).add "updated_at".toList
              (.number (JsonText.nearestDouble ts))) :=
            ((hparsed r rfl).delete (by decide)).add (fun e => absurd e (by decide))
              fun e => absurd e (by decide)
          cases hfind : st.find name with
          | none =>
            have hst : Indexed { st with derivedStale := true } :=
              { h with derived := fun hs => absurd hs (by simp) }
            have happend := @Indexed.append _ hst (ircCasefold 64 name) _ hnew
              (h.key_new hfind) true fun hs => absurd hs (by simp)
            rw [← hnew.groupSize_eq] at happend
            simp only [Option.isSome_none, Bool.false_eq_true, if_false, Option.elim_none,
              Int.sub_zero]
            exact happend
          | some old =>
            have hdrop : st.drop name = { st with
                data := st.data.eraseP fun x => x.key == ircCasefold 64 name
                byName := idxDel st.byName (ircCasefold 64 name)
                derivedStale := true
                nGrouped := st.nGrouped - old.items.groupSize } := by
              rw [AccountStore.drop, hfind]
            have hst := h.drop name
            rw [hdrop] at hst
            have happend := @Indexed.append _ hst (ircCasefold 64 name) _ hnew
              (h.erased (ircCasefold 64 name)) true
              fun hs => absurd hs (by simp)
            rw [← hnew.groupSize_eq] at happend
            simp only [Option.isSome_some, if_true, Option.elim_some]
            exact happend

/-- **What `accounts_group_add` does:** nothing but a look at the owner, or the nick is put behind
the others of a record, and nobody had it. -/
theorem groupAdd_cases (name nick : Text) (nowMs : Int) :
    ((st.groupAdd name nick nowMs).2 = st ∨
      (st.groupAdd name nick nowMs).2 = (st.ownerOfNick nick).2) ∨
    ∃ r ∈ (st.ownerOfNick nick).2.data, ∃ f : JsonRecord → JsonRecord,
      (st.ownerOfNick nick).1 = none ∧ Regular (f r.items) ∧
      (f r.items).nicks = r.items.nicks ++ [ircCasefold 64 nick] ∧
      (st.groupAdd name nick nowMs).2 = { (st.ownerOfNick nick).2.edit r.addr f with
        derivedStale := true, nGrouped := (st.ownerOfNick nick).2.nGrouped + 1 } := by
  have howner := h.ownerOfNick nick
  unfold AccountStore.groupAdd
  split
  · exact Or.inl (Or.inl rfl)
  · next r hr =>
    have hmem : r ∈ (st.ownerOfNick nick).2.data := by
      rw [st.ownerOfNick_data]
      exact h.find_mem hr
    have hreg := howner.regular r hmem
    dsimp only
    split
    · exact Or.inl (Or.inr rfl)
    · next hfree =>
      have hnone : (st.ownerOfNick nick).1 = none := Option.not_isSome_iff_eq_none.mp hfree
      split
      · exact Or.inl (Or.inr rfl)
      · refine Or.inr ⟨r, hmem, _, hnone, ?_, ?_, rfl⟩
        all_goals
          cases hget : r.items.get "nicks".toList with
          | none =>
            have hnew : ∀ c ∈ [(([] : Text), some (ircCasefold 64 nick))], c.2.isSome = true := by
              simp
            have hadd : Regular (r.items.add "nicks".toList
                ⟨.arr, [([], some (ircCasefold 64 nick))]⟩) :=
              hreg.add (fun _ => ⟨rfl, hnew⟩) fun e => absurd e (by decide)
            have hitem :=
              JsonRecord.get_add_of_none hget ⟨.arr, [([], some (ircCasefold 64 nick))]⟩
            have hempty : r.items.nicks = [] := by
              rw [JsonRecord.nicks, JsonRecord.getArray, hget]
              rfl
            simp only [Option.map_none, Option.getD_none, Option.isSome_none, Bool.false_eq_true,
              if_false, List.nil_append]
            first
            | exact regular_stamped hadd nowMs
            | rw [JsonRecord.nicks_congr (sameKeys_stamped hadd nowMs).nicks,
                JsonRecord.nicks_of_item hitem rfl, hempty]
              rfl
          | some item =>
            obtain ⟨harr, hall⟩ := hreg.nicks_item hget
            have hnew : ∀ c ∈ item.child ++ [([], some (ircCasefold 64 nick))],
                c.2.isSome = true := by
              intro c hc
              rcases List.mem_append.mp hc with hc | hc
              · exact hall c hc
              · rw [List.mem_singleton.mp hc]
                rfl
            have hset := hreg.setChild hnew
            have hitem := @JsonRecord.get_setChild r.items "nicks".toList "nicks".toList
              (item.child ++ [([], some (ircCasefold 64 nick))])
            rw [if_pos rfl, hget, Option.map_some] at hitem
            simp only [Option.map_some, Option.getD_some, Option.isSome_some, if_true]
            first
            | exact regular_stamped hset nowMs
            | rw [JsonRecord.nicks_congr (sameKeys_stamped hset nowMs).nicks,
                JsonRecord.nicks_of_item hitem harr, JsonRecord.nicks_of_item hget harr,
                List.filterMap_append]
              rfl

theorem groupAdd (name nick : Text) (nowMs : Int) : Indexed (st.groupAdd name nick nowMs).2 := by
  have howner := h.ownerOfNick nick
  rcases h.groupAdd_cases name nick nowMs with (he | he) | ⟨r, hr, f, -, hreg, hnicks, he⟩
  · rw [he]
    exact h
  · rw [he]
    exact howner
  · have hedit := @Indexed.edit _ howner r hr f hreg true fun hs => absurd hs (by simp)
    have hcount : (st.ownerOfNick nick).2.nGrouped - (r.items.nicks.length : Int) +
        ((f r.items).nicks.length : Int) = (st.ownerOfNick nick).2.nGrouped + 1 := by
      rw [hnicks, List.length_append, List.length_singleton]
      push_cast
      omega
    rw [hcount] at hedit
    rw [he]
    exact hedit

/-- **What `accounts_group_del` does:** nothing, or one nick is taken out of a record. -/
theorem groupDel_cases (name nick : Text) (nowMs : Int) :
    (st.groupDel name nick nowMs).2 = st ∨
    ∃ r ∈ st.data, ∃ f : JsonRecord → JsonRecord, Regular (f r.items) ∧
      (f r.items).nicks.Sublist r.items.nicks ∧
      (f r.items).nicks.length + 1 = r.items.nicks.length ∧
      (st.groupDel name nick nowMs).2 = { st.edit r.addr f with
        derivedStale := true, nGrouped := st.nGrouped - 1 } := by
  unfold AccountStore.groupDel
  split
  · exact Or.inl rfl
  · next r hr =>
    have hmem := h.find_mem hr
    have hreg := h.regular r hmem
    dsimp only
    split
    · next hany =>
      cases hget : r.items.get "nicks".toList with
      | none =>
        rw [hget] at hany
        exact absurd hany (by simp)
      | some item =>
        rw [hget] at hany
        simp only [Option.map_some, Option.getD_some] at hany ⊢
        obtain ⟨harr, hall⟩ := hreg.nicks_item hget
        obtain ⟨c, hc, hcf⟩ := List.any_eq_true.mp hany
        have hsub : (item.child.eraseP fun x => x.2 == some (ircCasefold 64 nick)).Sublist
            item.child := List.eraseP_sublist
        have hleft : ∀ c ∈ item.child.eraseP (fun x => x.2 == some (ircCasefold 64 nick)),
            c.2.isSome = true := fun c hc => hall c (hsub.subset hc)
        have hitem := @JsonRecord.get_setChild r.items "nicks".toList "nicks".toList
          (item.child.eraseP fun x => x.2 == some (ircCasefold 64 nick))
        rw [if_pos rfl, hget, Option.map_some] at hitem
        have hnew := hreg.setChild hleft
        have hsame := JsonRecord.nicks_congr (sameKeys_stamped hnew nowMs).nicks
        have hpos := List.length_pos_of_mem hc
        refine Or.inr ⟨r, hmem, _, regular_stamped hnew nowMs, ?_, ?_, rfl⟩
        · rw [hsame, JsonRecord.nicks_of_item hitem harr, JsonRecord.nicks_of_item hget harr]
          exact hsub.filterMap _
        · rw [hsame, JsonRecord.nicks_length hitem harr hleft,
            JsonRecord.nicks_length hget harr hall, List.length_eraseP_of_mem hc hcf]
          omega
    · exact Or.inl rfl

theorem groupDel (name nick : Text) (nowMs : Int) : Indexed (st.groupDel name nick nowMs).2 := by
  rcases h.groupDel_cases name nick nowMs with he | ⟨r, hr, f, hreg, -, hlen, he⟩
  · rw [he]
    exact h
  · have hedit := @Indexed.edit _ h r hr f hreg true fun hs => absurd hs (by simp)
    have hcount : st.nGrouped - (r.items.nicks.length : Int) +
        ((f r.items).nicks.length : Int) = st.nGrouped - 1 := by
      omega
    rw [hcount] at hedit
    rw [he]
    exact hedit

end Indexed

/-! ## 7. Runs -/

theorem indexed_load {parsed : List (Text × JsonRecord)} (hkeys : (parsed.map Prod.fst).Nodup)
    (hreg : ∀ x ∈ parsed, Regular x.2) : Indexed (loadAccounts parsed) := by
  let data : List StoredRecord := parsed.zipIdx.map fun x => ⟨x.2, x.1.1, x.1.2⟩
  have hdata : (loadAccounts parsed).data = data := rfl
  have hkey : data.map StoredRecord.key = parsed.map Prod.fst := by
    rw [List.map_map, show StoredRecord.key ∘ (fun x : (Text × JsonRecord) × Nat =>
      (⟨x.2, x.1.1, x.1.2⟩ : StoredRecord)) = Prod.fst ∘ Prod.fst from rfl, ← List.map_map,
      List.zipIdx_map_fst]
  have haddr : data.map StoredRecord.addr = List.range parsed.length := by
    rw [List.map_map, show StoredRecord.addr ∘ (fun x : (Text × JsonRecord) × Nat =>
      (⟨x.2, x.1.1, x.1.2⟩ : StoredRecord)) = Prod.snd from rfl, List.zipIdx_map_snd,
      List.range_eq_range']
  have hregular : ∀ r ∈ data, Regular r.items := by
    intro r hr
    obtain ⟨⟨x, i⟩, hx, rfl⟩ := List.mem_map.mp hr
    exact hreg x (List.fst_mem_of_mem_zipIdx hx)
  have hfold : ∀ (l : List StoredRecord) (ix : KeyIndex),
      l.foldl (fun ix r => idxPut ix r.key r.addr) ix =
        (l.map fun r => (r.key, r.addr)).foldl (fun ix p => idxPut ix p.1 p.2) ix :=
    fun l ix => by rw [List.foldl_map]
  refine ⟨⟨?_, ?_, ?_, ?_, ?_⟩, ?_, ?_, ?_⟩
  · rw [hdata, haddr]
    exact List.nodup_range
  · intro r hr
    have hmem := List.mem_map_of_mem (f := StoredRecord.addr) (hdata ▸ hr)
    rw [haddr, List.mem_range] at hmem
    exact hmem
  · rw [hdata, hkey]
    exact hkeys
  · change KeysDiffer (data.foldl _ [])
    rw [hfold]
    exact keysDiffer_foldl List.nodup_nil
  · intro k hk
    change idxGet (data.foldl _ []) k = (data.find? _).map _
    rw [hfold, idxGet_foldl hk, show idxGet [] k = none from rfl, Option.none_or, idxGet,
      List.find?_map, Option.map_map]
    rfl
  · exact fun hs => absurd hs (by simp [loadAccounts])
  · change (data.map fun r => r.items.groupSize).sum =
      (data.map fun r => (r.items.nicks.length : Int)).sum
    exact congrArg List.sum (List.map_congr_left fun r hr => (hregular r hr).groupSize_eq)
  · exact hregular

/-- What is done to the store, at a time. Lookups are among them, as they build an index that is
not there. -/
inductive StoreOp
  | register (name hash : Text)
  | drop (name : Text)
  | setHash (name hash : Text)
  | setFingerprint (name : Text) (fp : Option Text)
  | groupAdd (name nick : Text)
  | groupDel (name nick : Text)
  | applyRemote (name : Text) (ts : Int) (parsed : Option JsonRecord)
  | applyRemoteDelete (name : Text) (ts : Int)
  | ownerOfNick (nick : Text)
  | findByFingerprint (fp : Text)

/-- What it makes of it. -/
def StoreOp.apply (st : AccountStore) (nowMs : Int) : StoreOp → AccountStore
  | .register name hash => st.registerHashed name hash nowMs
  | .drop name => st.drop name
  | .setHash name hash => st.setHash name hash nowMs
  | .setFingerprint name fp => st.setFingerprint name fp nowMs
  | .groupAdd name nick => (st.groupAdd name nick nowMs).2
  | .groupDel name nick => (st.groupDel name nick nowMs).2
  | .applyRemote name ts parsed => st.applyRemote name ts parsed
  | .applyRemoteDelete name ts => st.applyRemoteDelete name ts
  | .ownerOfNick nick => (st.ownerOfNick nick).2
  | .findByFingerprint fp => (st.findByFingerprint fp).2

/-- The condition on a step: no name is registered that has a record, a fingerprint fits, and what
comes from another server is a regular record. -/
def StoreOp.Ok (st : AccountStore) : StoreOp → Prop
  | .register name _ => ∀ r ∈ st.data, r.key ≠ ircCasefold 64 name
  | .setFingerprint _ fp => ∀ f, fp = some f → f.length < 72
  | .applyRemote _ _ parsed => ∀ r, parsed = some r → Regular r
  | _ => True

def storeRun (st : AccountStore) (ops : List (Int × StoreOp)) : AccountStore :=
  ops.foldl (fun st x => x.2.apply st x.1) st

/-- Each step meets a condition on the store before it. -/
def RunMeets (P : AccountStore → StoreOp → Prop) : AccountStore → List (Int × StoreOp) → Prop :=
  Runs.Throughout (fun st x => x.2.apply st x.1) fun st x => P st x.2

/-- **One step keeps the invariant.** -/
theorem Indexed.step {st : AccountStore} (h : Indexed st) (nowMs : Int) {op : StoreOp}
    (hop : op.Ok st) : Indexed (op.apply st nowMs) := by
  cases op with
  | register name hash => exact h.registerHashed hash nowMs hop
  | drop name => exact h.drop name
  | setHash name hash => exact h.setHash name hash nowMs
  | setFingerprint name fp => exact h.setFingerprint name fp nowMs hop
  | groupAdd name nick => exact h.groupAdd name nick nowMs
  | groupDel name nick => exact h.groupDel name nick nowMs
  | applyRemote name ts parsed => exact h.applyRemote name ts hop
  | applyRemoteDelete name ts => exact h.applyRemoteDelete name ts
  | ownerOfNick nick => exact h.ownerOfNick nick
  | findByFingerprint fp => exact h.findByFingerprint fp

theorem Indexed.run {ops : List (Int × StoreOp)} {st : AccountStore} (h : Indexed st)
    (hops : RunMeets (fun st op => op.Ok st) st ops) : Indexed (storeRun st ops) :=
  Runs.invariant_of_step (fun _ x hst hok => hst.step x.1 hok) ops st h hops

/-! ## 8. One nick, one account

What the lookups are used for: a nick is given to nobody who would be the second to have it. -/

/-- A nick belongs to a record: as the name of the account, or grouped. -/
def Claims (r : StoredRecord) (nick : Text) : Prop := r.key = nick ∨ nick ∈ r.items.nicks

/-- **No nick belongs to two accounts**, neither as its name nor among the nicks grouped to it. -/
def Exclusive (data : List StoredRecord) : Prop :=
  ∀ a ∈ data, ∀ b ∈ data, ∀ nick, Claims a nick → Claims b nick → a.key = b.key

/-- The steps NickServ takes by its own commands: it registers a name that is no account and
nobody's nick. -/
def StoreOp.Own (st : AccountStore) : StoreOp → Prop
  | .register name _ => st.exists_ name = false ∧ (st.ownerOfNick name).1 = none
  | .setFingerprint _ fp => ∀ f, fp = some f → f.length < 72
  | .applyRemote .. => False
  | .applyRemoteDelete .. => False
  | _ => True

/-- Where every record claims what one did before, or a nick that was free, and that for one
account, no nick belongs to two. -/
theorem Exclusive.grow {data data' : List StoredRecord} (hold : Exclusive data) {nick : Text}
    (hfree : ∀ r ∈ data, ¬ Claims r nick) (key : Text)
    (hnew : ∀ r' ∈ data', (r'.key = key ∧ ∀ n, Claims r' n → n = nick) ∨
      ∃ r ∈ data, r'.key = r.key ∧ ∀ n, Claims r' n → Claims r n ∨ n = nick ∧ r'.key = key) :
    Exclusive data' := by
  have hcases : ∀ r' ∈ data', ∀ n, Claims r' n → (n = nick ∧ r'.key = key) ∨
      ∃ r ∈ data, r'.key = r.key ∧ Claims r n := by
    intro r' hr' n hn
    rcases hnew r' hr' with ⟨hk, hall⟩ | ⟨r, hr, hk, hall⟩
    · exact Or.inl ⟨hall n hn, hk⟩
    · exact (hall n hn).elim (fun hc => Or.inr ⟨r, hr, hk, hc⟩) Or.inl
  intro a ha b hb n hna hnb
  rcases hcases a ha n hna with ⟨rfl, hka⟩ | ⟨a', ha', hka, hca⟩
  · rcases hcases b hb n hnb with ⟨-, hkb⟩ | ⟨b', hb', -, hcb⟩
    · rw [hka, hkb]
    · exact absurd hcb (hfree b' hb')
  · rcases hcases b hb n hnb with ⟨rfl, -⟩ | ⟨b', hb', hkb, hcb⟩
    · exact absurd hca (hfree a' ha')
    · rw [hka, hkb]
      exact hold a' ha' b' hb' n hca hcb

theorem Exclusive.mono {data data' : List StoredRecord} (hold : Exclusive data)
    (hnew : ∀ r' ∈ data', ∃ r ∈ data, r'.key = r.key ∧ ∀ n, Claims r' n → Claims r n) :
    Exclusive data' := by
  intro a ha b hb n hna hnb
  obtain ⟨a', ha', hka, hca⟩ := hnew a ha
  obtain ⟨b', hb', hkb, hcb⟩ := hnew b hb
  rw [hka, hkb]
  exact hold a' ha' b' hb' n (hca n hna) (hcb n hnb)

theorem Exclusive.sublist {data data' : List StoredRecord} (hold : Exclusive data)
    (hsub : data'.Sublist data) : Exclusive data' :=
  hold.mono fun r hr => ⟨r, hsub.subset hr, rfl, fun _ h => h⟩

/-- An edit after which the record has no more nicks. -/
theorem Exclusive.edit {st : AccountStore} (hold : Exclusive st.data) (addr : Nat)
    {f : JsonRecord → JsonRecord}
    (hf : ∀ r ∈ st.data, r.addr = addr → ∀ n ∈ (f r.items).nicks, n ∈ r.items.nicks) :
    Exclusive (st.edit addr f).data := by
  refine hold.mono fun r' hr' => ?_
  obtain ⟨r, hr, rfl⟩ := List.mem_map.mp hr'
  split
  · next he => exact ⟨r, hr, rfl, fun n hn => hn.imp id (hf r hr he n)⟩
  · exact ⟨r, hr, rfl, fun _ h => h⟩

namespace Indexed

variable {st : AccountStore} (h : Indexed st)

include h

theorem free_of_owner {nick : Text} (hnone : (st.ownerOfNick nick).1 = none) :
    ∀ r ∈ st.data, ¬ Claims r (ircCasefold 64 nick) := by
  have hnamed : ∀ {p : StoredRecord → Bool},
      (st.data.find? p).bind (fun r => r.items.getText "name".toList) = none →
        ∀ r ∈ st.data, ¬ p r = true := by
    intro p hp
    cases hf : st.data.find? p with
    | none => exact List.find?_eq_none.mp hf
    | some r =>
      have hname := (h.regular r (List.mem_of_find?_eq_some hf)).name
      rw [hf, Option.bind_some] at hp
      rw [hp] at hname
      exact absurd hname (by simp)
  rw [h.agree.owner, scanOwner] at hnone
  split at hnone
  · next own hown =>
    have hname := (h.regular own (List.mem_of_find?_eq_some hown)).name
    rw [hnone] at hname
    exact absurd hname (by simp)
  · next hkey =>
    rintro r hr (hc | hc)
    · exact List.find?_eq_none.mp hkey r hr (by simp [hc])
    · exact hnamed hnone r hr (by simpa using hc)

/-- **One step of NickServ keeps every nick with one account.** -/
theorem exclusive_step (hex : Exclusive st.data) (nowMs : Int) {op : StoreOp} (hop : op.Own st) :
    Exclusive (op.apply st nowMs).data := by
  have hupdate : ∀ (name : Text) {f : JsonRecord → JsonRecord},
      (∀ r : JsonRecord, (f r).get "nicks".toList = r.get "nicks".toList) →
        Exclusive (st.update name nowMs f).data := by
    intro name f hf
    unfold AccountStore.update
    split
    · exact hex
    · refine hex.edit _ fun r hr _ n hn => ?_
      rwa [nicks_stamped, JsonRecord.nicks_congr (hf r.items)] at hn
  cases op with
  | register name hash =>
    have hfree := h.free_of_owner hop.2
    refine hex.grow hfree (ircCasefold 64 name) fun r' hr' => ?_
    rcases List.mem_append.mp hr' with hr' | hr'
    · exact Or.inr ⟨r', hr', rfl, fun _ hn => Or.inl hn⟩
    · obtain rfl := List.mem_singleton.mp hr'
      refine Or.inl ⟨rfl, fun n hn => ?_⟩
      rcases hn with hn | hn
      · exact hn.symm
      · rw [(registered_record name hash nowMs).2.1] at hn
        exact absurd hn List.not_mem_nil
  | drop name =>
    refine hex.sublist ?_
    change (st.drop name).data.Sublist st.data
    unfold AccountStore.drop
    dsimp only
    split
    · exact List.Sublist.refl _
    · exact List.eraseP_sublist
  | setHash name hash =>
    refine hupdate name fun r => ?_
    rw [JsonRecord.get_delete (by decide), JsonRecord.get_delete (by decide),
      JsonRecord.get_delete (by decide), JsonRecord.get_add (by decide),
      JsonRecord.get_delete (by decide)]
  | setFingerprint name fp =>
    change Exclusive (st.setFingerprint name fp nowMs).data
    unfold AccountStore.setFingerprint
    split
    · exact hex
    · refine hupdate name fun r => ?_
      have hdel : (r.delete "cert_fp".toList).get "nicks".toList = r.get "nicks".toList :=
        JsonRecord.get_delete (by decide)
      split
      · exact (JsonRecord.get_add (by decide) _).trans hdel
      · exact hdel
  | groupAdd name nick =>
    rcases h.groupAdd_cases name nick nowMs with (he | he) | ⟨r, hr, f, hnone, -, hnicks, he⟩
    · change Exclusive (st.groupAdd name nick nowMs).2.data
      rwa [he]
    · change Exclusive (st.groupAdd name nick nowMs).2.data
      rwa [he, st.ownerOfNick_data]
    · change Exclusive (st.groupAdd name nick nowMs).2.data
      rw [he]
      rw [st.ownerOfNick_data] at hr
      refine hex.grow (h.free_of_owner hnone) r.key fun r' hr' => ?_
      obtain ⟨x, hx, rfl⟩ := List.mem_map.mp hr'
      rw [st.ownerOfNick_data] at hx
      refine Or.inr ⟨x, hx, ?_⟩
      split
      · next haddr =>
        obtain rfl := List.inj_on_of_nodup_map h.addrs hx hr haddr
        refine ⟨rfl, fun n hn => ?_⟩
        rcases hn with hn | hn
        · exact Or.inl (Or.inl hn)
        · rw [hnicks] at hn
          rcases List.mem_append.mp hn with hn | hn
          · exact Or.inl (Or.inr hn)
          · exact Or.inr ⟨List.mem_singleton.mp hn, rfl⟩
      · exact ⟨rfl, fun _ hn => Or.inl hn⟩
  | groupDel name nick =>
    rcases h.groupDel_cases name nick nowMs with he | ⟨r, hr, f, -, hsub, -, he⟩
    · change Exclusive (st.groupDel name nick nowMs).2.data
      rwa [he]
    · change Exclusive (st.groupDel name nick nowMs).2.data
      rw [he]
      refine hex.edit r.addr fun x hx haddr n hn => ?_
      obtain rfl := List.inj_on_of_nodup_map h.addrs hx hr haddr
      exact hsub.subset hn
  | applyRemote name ts parsed => exact hop.elim
  | applyRemoteDelete name ts => exact hop.elim
  | ownerOfNick nick =>
    change Exclusive (st.ownerOfNick nick).2.data
    rwa [st.ownerOfNick_data]
  | findByFingerprint fp =>
    change Exclusive (st.findByFingerprint fp).2.data
    unfold AccountStore.findByFingerprint
    split
    · exact hex
    · rwa [st.derive_data]

end Indexed

theorem StoreOp.Own.ok {st : AccountStore} (h : Indexed st) {op : StoreOp} (hop : op.Own st) :
    op.Ok st := by
  cases op with
  | register name hash => exact h.key_new (Option.not_isSome_iff_eq_none.mp (by
      rw [show (st.find name).isSome = false from hop.1]
      exact Bool.false_ne_true))
  | setFingerprint name fp => exact hop
  | applyRemote name ts parsed => exact hop.elim
  | applyRemoteDelete name ts => exact hop.elim
  | drop name => trivial
  | setHash name hash => trivial
  | groupAdd name nick => trivial
  | groupDel name nick => trivial
  | ownerOfNick nick => trivial
  | findByFingerprint fp => trivial

theorem exclusive_run {ops : List (Int × StoreOp)} {st : AccountStore} (h : Indexed st)
    (hex : Exclusive st.data) (hops : RunMeets (fun st op => op.Own st) st ops) :
    Exclusive (storeRun st ops).data := by
  induction ops generalizing st with
  | nil => exact hex
  | cons x ops ih =>
    exact ih (h.step x.1 (hops.1.ok h)) (h.exclusive_step hex x.1 hops.1) hops.2

/-- **The indexes match the store in every run**, and NickServ's own commands give no nick to two
accounts. The store is a list of JSON objects, which may come with duplicate keys from a file or
from another server; the conditions on what is loaded and applied are about these. -/
theorem account_indexes_match {parsed : List (Text × JsonRecord)}
    (hkeys : (parsed.map Prod.fst).Nodup) (hreg : ∀ x ∈ parsed, Regular x.2)
    (ops : List (Int × StoreOp)) :
    (RunMeets (fun st op => op.Ok st) (loadAccounts parsed) ops →
      Matches (storeRun (loadAccounts parsed) ops)) ∧
    (Exclusive (loadAccounts parsed).data →
      RunMeets (fun st op => op.Own st) (loadAccounts parsed) ops →
        Exclusive (storeRun (loadAccounts parsed) ops).data) := by
  have hload := indexed_load hkeys hreg
  exact ⟨fun hops => (hload.run hops).agree, fun hex hops => exclusive_run hload hex hops⟩

/-- Alice, with a grouped nick and a fingerprint. -/
def aliceRecord : Text × JsonRecord :=
  ("alice".toList, [("name".toList, .text "Alice".toList),
    ("nicks".toList, ⟨.arr, [([], some "ally".toList)]⟩), ("cert_fp".toList, .text "FEED".toList)])

theorem aliceRecord_regular : Regular aliceRecord.2 := by
  refine ⟨rfl, ?_, ?_⟩
  all_goals
    intro x hx hkey
    simp only [aliceRecord, List.mem_cons, List.not_mem_nil, or_false] at hx
    rcases hx with rfl | rfl | rfl
  · exact absurd hkey (by decide)
  · exact ⟨rfl, by decide⟩
  · exact absurd hkey (by decide)
  · exact absurd hkey (by decide)
  · exact absurd hkey (by decide)
  · intro f hf
    rw [← JsonKind.str.inj hf]
    decide

/-- Bob comes, groups a nick and binds the fingerprint of Alice, who goes. -/
def storeDemo : List (Int × StoreOp) :=
  [(1000, .register "Bob".toList "h".toList), (2000, .groupAdd "bob".toList "Bobby".toList),
    (3000, .ownerOfNick "bobby".toList), (4000, .setFingerprint "bob".toList (some "feed".toList)),
    (5000, .findByFingerprint "Feed".toList), (6000, .drop "alice".toList)]

theorem account_indexes_match_demo :
    Matches (storeRun (loadAccounts [aliceRecord]) storeDemo) ∧
      Exclusive (storeRun (loadAccounts [aliceRecord]) storeDemo).data := by
  have hreg : ∀ x ∈ [aliceRecord], Regular x.2 := by
    intro x hx
    rw [List.mem_singleton.mp hx]
    exact aliceRecord_regular
  have hfp : ∀ f, some "feed".toList = some f → f.length < 72 := by
    intro f hf
    rw [← Option.some.inj hf]
    decide
  have hex : Exclusive (loadAccounts [aliceRecord]).data := by
    intro a ha b hb n _ _
    rw [List.mem_singleton.mp ha, List.mem_singleton.mp hb]
  have hnew : ∀ r ∈ (loadAccounts [aliceRecord]).data, r.key ≠ ircCasefold 64 "Bob".toList := by
    decide +kernel
  have hmatch := account_indexes_match (by decide) hreg storeDemo
  exact ⟨hmatch.1 ⟨hnew, trivial, trivial, hfp, trivial, trivial, trivial⟩,
    hmatch.2 hex ⟨⟨by decide +kernel, by decide +kernel⟩, trivial, trivial, hfp, trivial, trivial,
      trivial⟩⟩

/-- A file with two records under one key: when the account is dropped, the second remains, and no
index leads to it. -/
theorem dropped_account_remains :
    ¬ Matches (storeRun (loadAccounts [aliceRecord, aliceRecord])
      [(1000, .drop "alice".toList)]) := by
  intro h
  exact absurd (h.owner "alice".toList) (by decide +kernel)

end SekurIRCd
