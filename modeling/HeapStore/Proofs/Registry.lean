import Mathlib.Data.List.AList
import Mathlib.Data.String.Basic
import HeapStore.Proofs.Calls
import HeapStore.Proofs.Lookup

/-!
# Names and identities of tables

The catalog is one list of entries.  A `Registry` is the catalog as two maps, from names to
identities and from identities to entries, which are changed one after the other when a table is
registered: the name leaves both maps with the table that had it, then the identity leaves both with
the name that it had, then both get the new entry.

Through all calls, for any numbering of the files, both keep the same tables (`Registry.Follows`), a
name leads to the table that has it and back, and a table that is registered drops at most the one
with its name and the one with its file (`Catalog.calls_consistent`).
-/

namespace HeapStore

/-! ## The catalog -/

namespace Catalog

/-- Registers an entry. -/
def register (catalog : Catalog) (entry : CatalogEntry) : Except StoreError Catalog :=
  catalog.add entry.table entry.name entry.primaryKey

/-- The catalog as a keeper of tables. -/
def keeper : Keeper Catalog :=
  ⟨register, clear⟩

/-- No two entries share a name or an identity, and the identities are those of the files. -/
structure Keyed (catalog : Catalog) (identity : Location → TableId) : Prop where
  names : (catalog.entries.map (·.name)).Nodup
  ids : (catalog.entries.map (·.table.id)).Nodup
  numbered : ∀ entry ∈ catalog.entries, entry.table.id = identity entry.table.location

/-- What holds of a catalog: a name leads to the identity of the table that has the name and back,
and the list of the identities has each registered table once, in the order of the names. -/
structure Consistent (catalog : Catalog) : Prop where
  inverse : ∀ name id, catalog.idOf name = .ok id ↔
    ∃ entry, catalog.entry? id = some entry ∧ entry.name = name
  keyed : ∀ id entry, catalog.entry? id = some entry → entry.table.id = id
  listed : ∀ id, id ∈ catalog.tableIds ↔ ∃ entry, catalog.entry? id = some entry
  once : catalog.tableIds.Nodup
  ordered : catalog.tableIds.Pairwise fun a b => ∀ first second,
    catalog.entry? a = some first → catalog.entry? b = some second → first.name < second.name

/-- What registering an entry comes to.  A failure leaves the catalog as it is; a success drops the
entries with the name or with the file, of each of which there is one at most. -/
inductive Registers (catalog : Catalog) (entry : CatalogEntry) :
    Except StoreError (List TableId) × Catalog → Prop
  | otherSize (hsize : entry.table.pageSize ≠ catalog.pageSize) :
      Registers catalog entry
        (.error (.catalog (.pageSizeMismatch entry.name entry.table.pageSize catalog.pageSize)),
          catalog)
  | collision (hsize : entry.table.pageSize = catalog.pageSize) {existing : CatalogEntry}
      (hfound : catalog.entry? entry.table.id = some existing)
      (hother : existing.table.location ≠ entry.table.location) :
      Registers catalog entry
        (.error (.catalog (.idCollision entry.table.id entry.table.path existing.table.path)),
          catalog)
  | registered (hsize : entry.table.pageSize = catalog.pageSize)
      (hfree : ∀ old, catalog.entry? entry.table.id = some old →
        old.table.location = entry.table.location) {after : Catalog}
      (hpageSize : after.pageSize = catalog.pageSize)
      (hentries : ∀ id old, after.entry? id = some old ↔
        id = entry.table.id ∧ old = entry ∨ catalog.entry? id = some old ∧
          old.name ≠ entry.name ∧ old.table.location ≠ entry.table.location)
      (hconsistent : after.Consistent) :
      Registers catalog entry (.ok [entry.table.id], after)

section

variable {catalog : Catalog} {identity : Location → TableId} {entry : CatalogEntry}

theorem Keyed.entry?_eq_some_iff (hkeyed : catalog.Keyed identity) {id : TableId} :
    catalog.entry? id = some entry ↔ entry ∈ catalog.entries ∧ entry.table.id = id :=
  find?_key_eq_some_iff (fun entry : CatalogEntry => entry.table.id) hkeyed.ids

theorem Keyed.idOf_eq_ok_iff (hkeyed : catalog.Keyed identity) {name : String} {id : TableId} :
    catalog.idOf name = .ok id ↔ ∃ entry ∈ catalog.entries, entry.name = name ∧
      entry.table.id = id := by
  have hfind := fun found : CatalogEntry =>
    find?_key_eq_some_iff (fun entry : CatalogEntry => entry.name) hkeyed.names (k := name)
      (a := found)
  unfold idOf
  cases hname : catalog.entries.find? (fun entry => entry.name = name) with
  | none =>
      refine iff_of_false (by simp) ?_
      rintro ⟨found, hmem, hfound, -⟩
      exact absurd (hname.symm.trans ((hfind found).mpr ⟨hmem, hfound⟩)) (by simp)
  | some found =>
      obtain ⟨hmem, hfound⟩ := (hfind found).mp hname
      constructor
      · intro hid
        exact ⟨found, hmem, hfound, Except.ok.inj hid⟩
      · rintro ⟨other, hother, hsame, rfl⟩
        rw [Option.some.inj (hname.symm.trans ((hfind other).mpr ⟨hother, hsame⟩))]

/-- An entry with the key of no other one keeps the keys apart. -/
theorem nodup_keys_concat {α κ : Type} (key : α → κ) {items : List α} {item : α}
    {keep : α → Bool} (hnodup : (items.map key).Nodup)
    (hnew : ∀ old, keep old = true → key old ≠ key item) :
    ((items.filter keep ++ [item]).map key).Nodup := by
  rw [List.map_append, List.map_singleton]
  apply List.nodup_append.mpr
  refine ⟨hnodup.sublist (List.filter_sublist.map key), List.nodup_singleton _, ?_⟩
  intro first hfirst last hlast
  obtain ⟨old, hold, rfl⟩ := List.mem_map.mp hfirst
  rw [List.mem_singleton.mp hlast]
  exact hnew old (List.mem_filter.mp hold).2

/-- What is left of the catalog when an entry is registered, and the entry. -/
def replaced (catalog : Catalog) (entry : CatalogEntry) : Catalog :=
  { catalog with
    entries := catalog.entries.filter (fun old =>
      old.name ≠ entry.name && old.table.id ≠ entry.table.id) ++ [entry] }

theorem register_eq (catalog : Catalog) (entry : CatalogEntry) :
    catalog.register entry =
      if entry.table.pageSize ≠ catalog.pageSize then
        .error (.catalog (.pageSizeMismatch entry.name entry.table.pageSize catalog.pageSize))
      else
        match (catalog.entry? entry.table.id).filter (·.table.location ≠ entry.table.location) with
        | some existing =>
          .error (.catalog (.idCollision entry.table.id entry.table.path existing.table.path))
        | none => .ok (catalog.replaced entry) := rfl

theorem eq_of_register {added : Catalog} (hregister : catalog.register entry = .ok added) :
    added = catalog.replaced entry := by
  rw [register_eq] at hregister
  split at hregister
  · exact absurd hregister (by simp)
  · split at hregister
    · exact absurd hregister (by simp)
    · exact (Except.ok.inj hregister).symm

theorem mem_replaced_iff {old : CatalogEntry} :
    old ∈ (catalog.replaced entry).entries ↔ old = entry ∨
      old ∈ catalog.entries ∧ old.name ≠ entry.name ∧ old.table.id ≠ entry.table.id := by
  simp only [replaced, List.mem_append, List.mem_filter, List.mem_singleton, ne_eq,
    Bool.and_eq_true, decide_eq_true_eq]
  exact or_comm

theorem Keyed.replaced (hkeyed : catalog.Keyed identity)
    (hnumbered : entry.table.id = identity entry.table.location) :
    (catalog.replaced entry).Keyed identity := by
  refine ⟨nodup_keys_concat _ hkeyed.names ?_, nodup_keys_concat _ hkeyed.ids ?_, ?_⟩
  · intro old hold
    exact (by simpa using hold : old.name ≠ entry.name ∧ _).1
  · intro old hold
    exact (by simpa using hold : _ ∧ old.table.id ≠ entry.table.id).2
  · intro old hold
    rcases mem_replaced_iff.mp hold with rfl | ⟨hkept, -⟩
    · exact hnumbered
    · exact hkeyed.numbered old hkept

/-- In the order of the names each name is below those behind it. -/
theorem Keyed.pairwise_sorted (hkeyed : catalog.Keyed identity) :
    catalog.sorted.Pairwise fun a b => a.name < b.name := by
  have hsorted := pairwise_inOrder (fun a b : CatalogEntry => decide (a.name ≤ b.name))
    (fun a b => by simpa using le_total a.name b.name)
    (fun a b c => by simpa using le_trans) catalog.entries
  have hnames : catalog.sorted.Pairwise fun a b => a.name ≠ b.name := by
    rw [← List.pairwise_map (f := CatalogEntry.name)]
    exact ((perm_inOrder _ catalog.entries).map CatalogEntry.name).nodup_iff.mpr hkeyed.names
  exact hsorted.imp₂ (fun a b hle hne => lt_of_le_of_ne (of_decide_eq_true hle) hne) hnames

theorem Keyed.consistent (hkeyed : catalog.Keyed identity) : catalog.Consistent where
  inverse name id := by
    rw [hkeyed.idOf_eq_ok_iff]
    refine exists_congr fun entry => ?_
    rw [hkeyed.entry?_eq_some_iff, and_assoc, and_comm (a := entry.name = name)]
  keyed id entry hentry := (hkeyed.entry?_eq_some_iff.mp hentry).2
  listed id := by
    rw [tableIds, sorted, List.mem_map]
    refine exists_congr fun entry => ?_
    rw [hkeyed.entry?_eq_some_iff, (perm_inOrder _ catalog.entries).mem_iff]
  once := ((perm_inOrder _ catalog.entries).map _).nodup_iff.mpr hkeyed.ids
  ordered := by
    rw [tableIds, List.pairwise_map]
    refine hkeyed.pairwise_sorted.imp_of_mem ?_
    intro a b ha hb hlt first second hfirst hsecond
    have hfound : ∀ entry ∈ catalog.sorted, catalog.entry? entry.table.id = some entry :=
      fun entry hentry => hkeyed.entry?_eq_some_iff.mpr
        ⟨(perm_inOrder _ catalog.entries).mem_iff.mp hentry, rfl⟩
    rw [← Option.some.inj ((hfound a ha).symm.trans hfirst),
      ← Option.some.inj ((hfound b hb).symm.trans hsecond)]
    exact hlt

theorem keyed_empty (identity : Location → TableId) (pageSize : Nat) :
    (empty pageSize).Keyed identity :=
  ⟨List.nodup_nil, List.nodup_nil, by simp [empty]⟩

theorem keyed_clear (catalog : Catalog) (identity : Location → TableId) :
    catalog.clear.Keyed identity :=
  ⟨List.nodup_nil, List.nodup_nil, by simp [clear]⟩

theorem registers_register (hkeyed : catalog.Keyed identity)
    (hnumbered : entry.table.id = identity entry.table.location) :
    catalog.Registers entry (keeper.registerAll none [entry] catalog) := by
  have hregister := register_eq catalog entry
  simp only [Keeper.registerAll, keeper]
  by_cases hsize : entry.table.pageSize = catalog.pageSize
  · rw [if_neg (not_not_intro hsize)] at hregister
    cases hcollision : (catalog.entry? entry.table.id).filter
        (·.table.location ≠ entry.table.location) with
    | some existing =>
        obtain ⟨hfound, hother⟩ := Option.filter_eq_some_iff.mp hcollision
        rw [hregister, hcollision]
        exact .collision hsize hfound (by simpa using hother)
    | none =>
        have hfree : ∀ old, catalog.entry? entry.table.id = some old →
            old.table.location = entry.table.location := by
          intro old hold
          simpa using Option.filter_eq_none_iff.mp hcollision old hold
        rw [hregister, hcollision]
        -- by now the entries with the identity are those with the file
        have hplace : ∀ old ∈ catalog.entries, old.table.id ≠ entry.table.id ↔
            old.table.location ≠ entry.table.location := by
          intro old hold
          refine not_congr ⟨fun hid => hfree old (hkeyed.entry?_eq_some_iff.mpr ⟨hold, hid⟩), ?_⟩
          intro hlocation
          rw [hnumbered, hkeyed.numbered old hold, hlocation]
        refine .registered hsize hfree rfl ?_ (hkeyed.replaced hnumbered).consistent
        intro id old
        rw [(hkeyed.replaced hnumbered).entry?_eq_some_iff, hkeyed.entry?_eq_some_iff,
          mem_replaced_iff]
        constructor
        · rintro ⟨rfl | ⟨hold, hname, hid⟩, rfl⟩
          · exact .inl ⟨rfl, rfl⟩
          · exact .inr ⟨⟨hold, rfl⟩, hname, (hplace old hold).mp hid⟩
        · rintro (⟨rfl, rfl⟩ | ⟨⟨hold, rfl⟩, hname, hlocation⟩)
          · exact ⟨.inl rfl, rfl⟩
          · exact ⟨.inr ⟨hold, hname, (hplace old hold).mpr hlocation⟩, rfl⟩
  · rw [if_pos hsize] at hregister
    rw [hregister]
    exact .otherSize hsize

end

end Catalog

/-! ## The catalog as two maps -/

/-- The catalog as a map from names to identities and one from identities to entries. -/
structure Registry where
  pageSize : Nat
  names : AList fun _ : String => TableId
  tables : AList fun _ : TableId => CatalogEntry

namespace Registry

/-- A registry without tables. -/
def empty (pageSize : Nat) : Registry :=
  ⟨pageSize, ∅, ∅⟩

/-- Takes a name out, and the table that has it. -/
def forgetName (registry : Registry) (name : String) : Registry :=
  match registry.names.lookup name with
  | none => registry
  | some id =>
    { registry with names := registry.names.erase name, tables := registry.tables.erase id }

/-- Takes an identity out, and the name of its table. -/
def forgetId (registry : Registry) (id : TableId) : Registry :=
  match registry.tables.lookup id with
  | none => registry
  | some old =>
    { registry with tables := registry.tables.erase id, names := registry.names.erase old.name }

/-- Puts an entry into both maps. -/
def enter (registry : Registry) (entry : CatalogEntry) : Registry :=
  { registry with
    names := registry.names.insert entry.name entry.table.id
    tables := registry.tables.insert entry.table.id entry }

/-- Registers an entry. -/
def register (registry : Registry) (entry : CatalogEntry) : Except StoreError Registry :=
  if entry.table.pageSize ≠ registry.pageSize then
    .error (.catalog (.pageSizeMismatch entry.name entry.table.pageSize registry.pageSize))
  else
    match (registry.tables.lookup entry.table.id).filter
        (·.table.location ≠ entry.table.location) with
    | some existing =>
      .error (.catalog (.idCollision entry.table.id entry.table.path existing.table.path))
    | none => .ok (((registry.forgetName entry.name).forgetId entry.table.id).enter entry)

/-- Forgets all tables. -/
def clear (registry : Registry) : Registry :=
  { registry with names := ∅, tables := ∅ }

/-- The registry as a keeper of tables. -/
def keeper : Keeper Registry :=
  ⟨register, clear⟩

/-- By name, and by identity where the names are equal. -/
def precedes (a b : String × TableId) : Bool :=
  decide (a.1 < b.1) || decide (a.1 = b.1) && decide (a.2 ≤ b.2)

/-- The pairs of the first map in order, without the names. -/
def tableIds (registry : Registry) : List TableId :=
  (inOrder precedes (registry.names.entries.map fun pair => (pair.1, pair.2))).map (·.2)

/-- Both maps are those of some entries. -/
structure Lists (registry : Registry) (entries : List CatalogEntry) : Prop where
  tables : ∀ id entry, registry.tables.lookup id = some entry ↔
    entry ∈ entries ∧ entry.table.id = id
  names : ∀ name id, registry.names.lookup name = some id ↔
    ∃ entry ∈ entries, entry.name = name ∧ entry.table.id = id

section

variable {registry : Registry} {entries : List CatalogEntry}

theorem lists_nil (hnames : registry.names = ∅) (htables : registry.tables = ∅) :
    registry.Lists [] :=
  ⟨by simp [htables], by simp [hnames]⟩

/-- Entries with one identity are one entry. -/
theorem Lists.eq_of_id (hlists : registry.Lists entries) {a b : CatalogEntry} (ha : a ∈ entries)
    (hb : b ∈ entries) (hid : a.table.id = b.table.id) : a = b := by
  have hfound := (hlists.tables _ a).mpr ⟨ha, hid⟩
  exact Option.some.inj (hfound.symm.trans ((hlists.tables _ b).mpr ⟨hb, rfl⟩))

/-- Entries with one name are one entry. -/
theorem Lists.eq_of_name (hlists : registry.Lists entries) {a b : CatalogEntry} (ha : a ∈ entries)
    (hb : b ∈ entries) (hname : a.name = b.name) : a = b := by
  have hfound := (hlists.names _ _).mpr ⟨a, ha, hname, rfl⟩
  have hid := Option.some.inj (hfound.symm.trans ((hlists.names _ _).mpr ⟨b, hb, rfl, rfl⟩))
  exact hlists.eq_of_id ha hb hid

/-- To take an entry out of both maps leaves the maps of the others. -/
theorem Lists.erase (hlists : registry.Lists entries) {old : CatalogEntry} (hold : old ∈ entries) :
    Lists { registry with
      names := registry.names.erase old.name
      tables := registry.tables.erase old.table.id } (entries.filter (· ≠ old)) := by
  have hleft : ∀ entry, entry ∈ entries.filter (· ≠ old) ↔ entry ∈ entries ∧ entry ≠ old := by
    intro entry
    rw [List.mem_filter, decide_eq_true_eq]
  refine ⟨?_, ?_⟩
  · intro id entry
    rw [hleft]
    by_cases hid : id = old.table.id
    · subst hid
      refine iff_of_false (by simp) ?_
      rintro ⟨⟨hentry, hne⟩, hid⟩
      exact hne (hlists.eq_of_id hentry hold hid)
    · rw [AList.lookup_erase_ne hid, hlists.tables]
      refine and_congr_left fun hsame => (and_iff_left ?_).symm
      rintro rfl
      exact hid hsame.symm
  · intro name id
    by_cases hname : name = old.name
    · subst hname
      refine iff_of_false (by simp) ?_
      rintro ⟨entry, hentry, hname, -⟩
      obtain ⟨hentry, hne⟩ := (hleft entry).mp hentry
      exact hne (hlists.eq_of_name hentry hold hname)
    · rw [AList.lookup_erase_ne hname, hlists.names]
      refine exists_congr fun entry => and_congr_left fun hsame => ?_
      rw [hleft]
      refine (and_iff_left ?_).symm
      rintro rfl
      exact hname hsame.1.symm

theorem Lists.forgetName (hlists : registry.Lists entries) (name : String) :
    (registry.forgetName name).Lists (entries.filter (·.name ≠ name)) := by
  unfold Registry.forgetName
  cases hlookup : registry.names.lookup name with
  | none =>
      have hall : entries.filter (·.name ≠ name) = entries := by
        apply List.filter_eq_self.mpr
        intro entry hentry
        rw [decide_eq_true_eq]
        rintro rfl
        exact absurd (hlookup.symm.trans ((hlists.names _ _).mpr ⟨entry, hentry, rfl, rfl⟩))
          (by simp)
      rw [hall]
      exact hlists
  | some id =>
      obtain ⟨old, hold, rfl, rfl⟩ := (hlists.names name id).mp hlookup
      have hothers : entries.filter (·.name ≠ old.name) = entries.filter (· ≠ old) := by
        apply List.filter_congr
        intro entry hentry
        rw [decide_eq_decide]
        exact not_congr ⟨hlists.eq_of_name hentry hold, congrArg CatalogEntry.name⟩
      rw [hothers]
      exact hlists.erase hold

theorem Lists.forgetId (hlists : registry.Lists entries) (id : TableId) :
    (registry.forgetId id).Lists (entries.filter (·.table.id ≠ id)) := by
  unfold Registry.forgetId
  cases hlookup : registry.tables.lookup id with
  | none =>
      have hall : entries.filter (·.table.id ≠ id) = entries := by
        apply List.filter_eq_self.mpr
        intro entry hentry
        rw [decide_eq_true_eq]
        rintro rfl
        exact absurd (hlookup.symm.trans ((hlists.tables _ _).mpr ⟨hentry, rfl⟩)) (by simp)
      rw [hall]
      exact hlists
  | some old =>
      obtain ⟨hold, rfl⟩ := (hlists.tables id old).mp hlookup
      have hothers : entries.filter (·.table.id ≠ old.table.id) = entries.filter (· ≠ old) := by
        apply List.filter_congr
        intro entry hentry
        rw [decide_eq_decide]
        exact not_congr ⟨hlists.eq_of_id hentry hold, fun heq => by rw [heq]⟩
      rw [hothers]
      exact hlists.erase hold

theorem Lists.enter (hlists : registry.Lists entries) {entry : CatalogEntry}
    (hnew : ∀ old ∈ entries, old.name ≠ entry.name ∧ old.table.id ≠ entry.table.id) :
    (registry.enter entry).Lists (entries ++ [entry]) := by
  refine ⟨?_, ?_⟩
  · intro id found
    rw [List.mem_append, List.mem_singleton]
    by_cases hid : id = entry.table.id
    · subst hid
      rw [Registry.enter, AList.lookup_insert, Option.some_inj]
      constructor
      · rintro rfl
        exact ⟨.inr rfl, rfl⟩
      · rintro ⟨hfound | hfound, hsame⟩
        · exact absurd hsame (hnew found hfound).2
        · exact hfound.symm
    · rw [Registry.enter, AList.lookup_insert_ne hid, hlists.tables]
      refine and_congr_left fun hsame => (or_iff_left ?_).symm
      rintro rfl
      exact hid hsame.symm
  · intro name id
    by_cases hname : name = entry.name
    · subst hname
      rw [Registry.enter, AList.lookup_insert, Option.some_inj]
      constructor
      · rintro rfl
        exact ⟨entry, List.mem_append_right _ (List.mem_singleton_self _), rfl, rfl⟩
      · rintro ⟨found, hfound, hsame, rfl⟩
        rcases List.mem_append.mp hfound with hold | hlast
        · exact absurd hsame (hnew found hold).1
        · rw [List.mem_singleton.mp hlast]
    · rw [Registry.enter, AList.lookup_insert_ne hname, hlists.names]
      refine exists_congr fun found => and_congr_left fun hsame => ?_
      rw [List.mem_append, List.mem_singleton]
      refine (or_iff_left ?_).symm
      rintro rfl
      exact hname hsame.1.symm

end

@[simp] theorem pageSize_forgetName (registry : Registry) (name : String) :
    (registry.forgetName name).pageSize = registry.pageSize := by
  unfold forgetName
  split <;> rfl

@[simp] theorem pageSize_forgetId (registry : Registry) (id : TableId) :
    (registry.forgetId id).pageSize = registry.pageSize := by
  unfold forgetId
  split <;> rfl

/-! ### Both forms of the catalog -/

/-- The registry is that of a catalog whose entries can be told apart. -/
structure Follows (registry : Registry) (identity : Location → TableId) (catalog : Catalog) :
    Prop where
  pageSize : registry.pageSize = catalog.pageSize
  lists : registry.Lists catalog.entries
  keyed : catalog.Keyed identity

section

variable {registry : Registry} {identity : Location → TableId} {catalog : Catalog}

theorem Follows.lookup_tables (hfollows : registry.Follows identity catalog) (id : TableId) :
    registry.tables.lookup id = catalog.entry? id := by
  apply Option.ext
  intro entry
  rw [hfollows.lists.tables, hfollows.keyed.entry?_eq_some_iff]

theorem Follows.lookup_names (hfollows : registry.Follows identity catalog) (name : String) :
    registry.names.lookup name = (catalog.idOf name).toOption := by
  apply Option.ext
  intro id
  rw [hfollows.lists.names, ← hfollows.keyed.idOf_eq_ok_iff]
  cases catalog.idOf name <;> simp [Except.toOption]

theorem Follows.register (hfollows : registry.Follows identity catalog) {entry : CatalogEntry}
    (hnumbered : entry.table.id = identity entry.table.location) :
    Keeper.Alike (fun catalog registry => registry.Follows identity catalog)
      (catalog.register entry) (registry.register entry) := by
  rw [Catalog.register_eq, Registry.register, hfollows.pageSize, hfollows.lookup_tables]
  split
  · exact .refused _
  · split
    · exact .refused _
    · refine .went ⟨?_, ?_, hfollows.keyed.replaced hnumbered⟩
      · exact ((pageSize_forgetId _ _).trans (pageSize_forgetName _ _)).trans hfollows.pageSize
      · have hothers := (hfollows.lists.forgetName entry.name).forgetId entry.table.id
        rw [List.filter_filter] at hothers
        simp only [Bool.and_comm] at hothers
        refine hothers.enter ?_
        intro old hold
        simpa using (List.mem_filter.mp hold).2

theorem simulates (identity : Location → TableId) :
    Catalog.keeper.Simulates keeper identity
      fun catalog registry => registry.Follows identity catalog where
  register hnumbered hfollows := hfollows.register hnumbered
  clear hfollows :=
    ⟨hfollows.pageSize, lists_nil rfl rfl, Catalog.keyed_clear _ identity⟩

theorem follows_empty (identity : Location → TableId) (pageSize : Nat) :
    (empty pageSize).Follows identity (.empty pageSize) :=
  ⟨rfl, lists_nil rfl rfl, Catalog.keyed_empty identity pageSize⟩

end

/-! ### The order of the names -/

theorem precedes_iff (a b : String × TableId) :
    precedes a b = true ↔ a.1 < b.1 ∨ a.1 = b.1 ∧ a.2 ≤ b.2 := by
  simp only [precedes, Bool.or_eq_true, Bool.and_eq_true, decide_eq_true_eq]

theorem precedes_total (a b : String × TableId) :
    precedes a b = true ∨ precedes b a = true := by
  rw [precedes_iff, precedes_iff]
  rcases lt_trichotomy a.1 b.1 with hlt | heq | hgt
  · exact .inl (.inl hlt)
  · rcases UInt32.le_total a.2 b.2 with hle | hge
    · exact .inl (.inr ⟨heq, hle⟩)
    · exact .inr (.inr ⟨heq.symm, hge⟩)
  · exact .inr (.inl hgt)

theorem precedes_trans (a b c : String × TableId) (hfirst : precedes a b = true)
    (hsecond : precedes b c = true) : precedes a c = true := by
  rw [precedes_iff] at *
  rcases hfirst with hlt | ⟨heq, hle⟩
  · rcases hsecond with hlt' | ⟨heq', -⟩
    · exact .inl (hlt.trans hlt')
    · exact .inl (heq' ▸ hlt)
  · rcases hsecond with hlt' | ⟨heq', hle'⟩
    · exact .inl (heq ▸ hlt')
    · exact .inr ⟨heq.trans heq', UInt32.le_trans hle hle'⟩

theorem precedes_antisymm (a b : String × TableId) (hfirst : precedes a b = true)
    (hsecond : precedes b a = true) : a = b := by
  rw [precedes_iff] at *
  rcases hfirst with hlt | ⟨heq, hle⟩
  · rcases hsecond with hgt | ⟨heq, -⟩
    · exact absurd hgt (lt_asymm hlt)
    · exact absurd heq (ne_of_gt hlt)
  · rcases hsecond with hgt | ⟨-, hge⟩
    · exact absurd heq (ne_of_gt hgt)
    · exact Prod.ext heq (UInt32.le_antisymm hle hge)

section

variable {registry : Registry} {identity : Location → TableId} {catalog : Catalog}

/-- The pairs of the first map are the names and identities of the entries. -/
theorem Follows.perm_names (hfollows : registry.Follows identity catalog) :
    (registry.names.entries.map fun pair => (pair.1, pair.2)).Perm
      (catalog.sorted.map fun entry => (entry.name, entry.table.id)) := by
  have hsorted := hfollows.keyed.pairwise_sorted
  apply (List.perm_ext_iff_of_nodup ?_ ?_).mpr
  · rintro ⟨name, id⟩
    have hmem : (name, id) ∈ registry.names.entries.map (fun pair => (pair.1, pair.2)) ↔
        registry.names.lookup name = some id := by
      rw [← Option.mem_def, AList.mem_lookup_iff, List.mem_map]
      constructor
      · rintro ⟨pair, hpair, heq⟩
        cases heq
        exact hpair
      · exact fun hpair => ⟨_, hpair, rfl⟩
    rw [hmem, hfollows.lists.names, List.mem_map]
    refine exists_congr fun entry => ?_
    rw [Catalog.sorted, (perm_inOrder _ catalog.entries).mem_iff, Prod.mk.injEq]
  · apply registry.names.nodupKeys.nodup.map
    rintro ⟨name, id⟩ ⟨name', id'⟩ heq
    cases heq
    rfl
  · rw [List.Nodup, List.pairwise_map]
    exact hsorted.imp fun hlt heq => ne_of_lt hlt (congrArg Prod.fst heq)

theorem Follows.tableIds (hfollows : registry.Follows identity catalog) :
    registry.tableIds = catalog.tableIds := by
  have hsorted : (catalog.sorted.map fun entry => (entry.name, entry.table.id)).Pairwise
      fun a b => precedes a b = true := by
    rw [List.pairwise_map]
    exact hfollows.keyed.pairwise_sorted.imp fun hlt => (precedes_iff _ _).mpr (.inl hlt)
  have hsame := ((perm_inOrder precedes _).trans hfollows.perm_names).eq_of_pairwise
    (fun a b _ _ => precedes_antisymm a b)
    (pairwise_inOrder precedes precedes_total precedes_trans _) hsorted
  rw [Registry.tableIds, hsame, List.map_map]
  rfl

end

/-- Both forms answer alike. -/
structure Mirrors (registry : Registry) (catalog : Catalog) : Prop where
  names : ∀ name, registry.names.lookup name = (catalog.idOf name).toOption
  tables : ∀ id, registry.tables.lookup id = catalog.entry? id
  tableIds : registry.tableIds = catalog.tableIds

theorem Follows.mirrors {registry : Registry} {identity : Location → TableId} {catalog : Catalog}
    (hfollows : registry.Follows identity catalog) : registry.Mirrors catalog :=
  ⟨hfollows.lookup_names, hfollows.lookup_tables, hfollows.tableIds⟩

end Registry

namespace Catalog

/-! ## Calls of the store -/

theorem numbered_of_openFile {disk made : Disk} {path : String} {schema : Schema} {pageSize : Nat}
    {table : Table} (hopen : Table.openFile disk path schema pageSize = (.ok table, made)) :
    table.numbered TableId.ofLocation = table := by
  rw [Table.numbered, ← (Table.of_openFile hopen).1]

/-- The lines of a catalog file register what they define. -/
theorem perform_openDefined (directory : String) (lines : List String) (store : Store) :
    let asked := Registrations.ofLines TableId.ofLocation store.catalog.pageSize directory lines
      store.disk
    let outcome := (Store.openDefined directory lines).perform store
    (outcome.1, outcome.2.catalog) = keeper.registerAll asked.stop asked.entries store.catalog := by
  induction lines generalizing store with
  | nil => rfl
  | cons line rest ih =>
      simp only [Store.perform_openDefined_cons, Registrations.ofLines_cons]
      cases CatalogLine.parse line with
      | error error => rfl
      | ok definition =>
          simp only [Store.perform_openTable]
          rcases hopen : Table.openFile store.disk
            (Path.join directory (definition.name ++ ".dat")) definition.schema
            store.catalog.pageSize with ⟨opened, made⟩
          cases opened with
          | error error => rfl
          | ok table =>
              simp only [numbered_of_openFile hopen, Keeper.registerAll]
              have hregister : keeper.register store.catalog
                  ⟨definition.name, definition.primaryKey, table⟩ =
                    store.catalog.add table definition.name definition.primaryKey := rfl
              rw [hregister]
              cases hadd : store.catalog.add table definition.name definition.primaryKey with
              | error error => rfl
              | ok catalog =>
                  have hlater := ih { store with disk := made, catalog := catalog }
                  simp only [pageSize_of_add hadd] at hlater
                  exact congrArg
                    (fun outcome => (outcome.1.map (table.id :: ·), outcome.2)) hlater

/-- A catalog file registers what its lines define, if it can be read. -/
theorem perform_loadSchema (path : String) (store : Store) :
    let asked := (CatalogCall.loadSchema path).registrations TableId.ofLocation
      store.catalog.pageSize store.disk
    let outcome := (Store.loadSchema path).perform store
    (outcome.1, outcome.2.catalog) = keeper.registerAll asked.stop asked.entries store.catalog := by
  simp only [Store.loadSchema, CatalogCall.registrations, Action.perform_bind, Action.perform_get]
  cases store.disk.read (Path.ofString path) with
  | error error => rfl
  | ok content =>
      cases store.disk.locate (Path.ofString path) with
      | error error => rfl
      | ok location =>
          simp only
          cases Text.ofUtf8? content.toBytes with
          | none => rfl
          | some text => exact perform_openDefined _ _ store

/-- With the identities that the files have, a call is an operation of the store. -/
theorem step_call (store : Store) (call : CatalogCall) :
    ((store.step call.operation).1, (store.step call.operation).2.catalog) =
      keeper.call TableId.ofLocation store.catalog.pageSize store.disk store.catalog call := by
  cases call with
  | clear => rfl
  | openTable path name schema primaryKey pageSize =>
      simp only [CatalogCall.operation, Store.step, Operation.action, Action.perform_map,
        Store.perform_openTable, Keeper.call, CatalogCall.registrations]
      rcases hopen : Table.openFile store.disk path schema pageSize with ⟨opened, made⟩
      cases opened with
      | error error => rfl
      | ok table =>
          simp only [numbered_of_openFile hopen, Keeper.registerAll]
          have hregister : keeper.register store.catalog ⟨name, primaryKey, table⟩ =
              store.catalog.add table name primaryKey := rfl
          rw [hregister]
          cases store.catalog.add table name primaryKey with
          | error error => rfl
          | ok catalog => rfl
  | loadSchema path =>
      have hload := perform_loadSchema path store
      simp only [CatalogCall.operation, Store.step, Operation.action, Action.perform_map]
      exact congrArg (fun outcome => (outcome.1.map Reply.tables, outcome.2)) hload

/-! ## All calls -/

/-- Through every list of calls on any files, with any numbering of the files and whether the calls
succeed or not, the catalog stays consistent, and the two maps give the same replies and hold the
same as the catalog.  A table that is registered drops at most the table with its name and the one
with its file; one that is refused changes nothing.  The calls are those of the store, with the
identities that it gives to files.  Two tables are of one file if they had one location when they
were opened: the canonical path of an open table is fixed. -/
theorem calls_consistent (identity : Location → TableId) (pageSize : Nat)
    (calls : List (Disk × CatalogCall)) :
    let outcome := keeper.run identity pageSize calls (empty pageSize)
    let catalog := outcome.2
    let mirrored := Registry.keeper.run identity pageSize calls (.empty pageSize)
    catalog.Consistent ∧ outcome.1 = mirrored.1 ∧ mirrored.2.Mirrors catalog ∧
      (∀ (name : String) (primaryKey : Option String) (table : Table),
        let entry : CatalogEntry := ⟨name, primaryKey, table.numbered identity⟩
        catalog.Registers entry (keeper.registerAll none [entry] catalog)) ∧
      ∀ (store : Store) (call : CatalogCall),
        ((store.step call.operation).1, (store.step call.operation).2.catalog) =
          keeper.call TableId.ofLocation store.catalog.pageSize store.disk store.catalog call := by
  intro outcome catalog mirrored
  obtain ⟨hreplies, hfollows⟩ := (Registry.simulates identity).run pageSize calls
    (Registry.follows_empty identity pageSize)
  exact ⟨hfollows.keyed.consistent, hreplies, hfollows.mirrors,
    fun name primaryKey table => registers_register hfollows.keyed rfl, step_call⟩

end Catalog

end HeapStore
