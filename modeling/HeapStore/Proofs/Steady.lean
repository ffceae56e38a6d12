import HeapStore.Proofs.Isolation
import HeapStore.Proofs.Writing

/-!
# What a reader keeps steady

A transaction that has locked a page keeps the rows that it sees there, whatever other transactions
do and commit (`view_of_conducts`).  An insert comes to the first page of its table before it comes
to any other one, also in a table without pages, so whoever has locked the first page keeps the
others from putting rows anywhere in the table (`refused_insertRow`): pages without rows stay
without rows (`Bare.turn`).
-/

namespace HeapStore

/-- The transaction puts a row into the table, or takes one away, with an operation that gets this
answer. -/
def Operation.changes (tid : TransactionId) (id : TableId) :
    Operation → Except StoreError Answer → Bool
  | .insert who table _, .ok _ => who = tid && table = id
  | .delete who row, .ok _ => who = tid && row.address.any (·.page.table = id)
  | _, _ => false

/-- A page that only one transaction may own, before and after, is seen by it as before, unless it
ends or edits the page. -/
theorem Event.Happens.view_onPage {event : Event} {standing after : Standing}
    {tid : TransactionId} {page : PageAddress} (hhappens : event.Happens standing after)
    (hends : event.ends tid = false)
    (hedits : ∀ edit, event = .edited tid edit → edit.place.page ≠ page)
    (hbefore : ∀ who, standing.owner page = some who → who = tid)
    (hafter : ∀ who, after.owner page = some who → who = tid) :
    (after.view tid).onPage page = (standing.view tid).onPage page := by
  have hout : ∀ who, who ≠ tid → standing.owns who page = false := by
    intro who hwho
    rw [Standing.owns, decide_eq_false_iff_not]
    exact fun howned => hwho (hbefore who howned)
  funext place
  unfold Rows.onPage
  split
  · rename_i hplace
    subst hplace
    cases hhappens with
    | quiet => rfl
    | edited howner hfits =>
        rename_i who edit
        have hpage : place.page ≠ edit.place.page := by
          intro hpage
          have hwho : who = tid := hafter who (by simp [Standing.edited, hpage])
          exact hedits edit (by rw [hwho]) hpage.symm
        have hne : place ≠ edit.place := fun heq => hpage (by rw [heq])
        simp [Standing.view, Standing.edited, Rows.set, hpage, hne]
    | @committed _ who =>
        have hwho : who ≠ tid := of_decide_eq_false hends
        simp [Standing.view, Standing.settled, hout who hwho]
    | @dropped _ who =>
        have hwho : who ≠ tid := of_decide_eq_false hends
        simp [Standing.view, Standing.reverted, hout who hwho]
  · rfl

/-! ## Lists of rows -/

namespace Rows

variable {rows : Rows} {page : PageAddress}
  {entries others : List (Option RecordAddress × List Field)}

theorem listing_of_le {count more : Nat} (hnone : ∀ slot, count ≤ slot → rows ⟨page, slot⟩ = none)
    (hle : count ≤ more) : rows.listing page more = rows.listing page count := by
  obtain ⟨extra, rfl⟩ := Nat.exists_eq_add_of_le hle
  have hextra : ((List.range extra).map (count + ·)).filterMap (fun slot =>
      (rows ⟨page, slot⟩).map fun fields =>
        (some (⟨page, slot⟩ : RecordAddress), fields)) = [] := by
    rw [List.filterMap_eq_nil_iff]
    intro slot hslot
    obtain ⟨beyond, -, rfl⟩ := List.mem_map.mp hslot
    simp [hnone (count + beyond) (Nat.le_add_right count beyond)]
  rw [listing, List.range_add, List.filterMap_append, hextra, List.append_nil]
  rfl

/-- The rows of a page are listed in one way only. -/
theorem Lists.unique (hentries : rows.Lists page entries) (hothers : rows.Lists page others) :
    entries = others := by
  obtain ⟨count, hcount, rfl⟩ := hentries
  obtain ⟨more, hmore, rfl⟩ := hothers
  rcases Nat.le_total count more with hle | hle
  · exact (listing_of_le hcount hle).symm
  · exact listing_of_le hmore hle

theorem Lists.eq_nil (hentries : rows.Lists page entries)
    (hnone : ∀ slot, rows ⟨page, slot⟩ = none) : entries = [] :=
  hentries.unique ⟨0, fun slot _ => hnone slot, rfl⟩

end Rows

/-! ## Pages without rows -/

/-- The table has no row in its pages from this one on, neither in its file nor changed. -/
def Standing.Bare (standing : Standing) (id : TableId) (count : Nat) : Prop :=
  ∀ place, place.page.table = id → count ≤ place.page.number.toNat →
    standing.present place = none ∧ standing.filed place = none

theorem Standing.Bare.view {standing : Standing} {id : TableId} {count : Nat}
    (hbare : standing.Bare id count) {tid : TransactionId} {place : RecordAddress}
    (htable : place.page.table = id) (hcount : count ≤ place.page.number.toNat) :
    standing.view tid place = none := by
  obtain ⟨hpresent, hfiled⟩ := hbare place htable hcount
  unfold Standing.view
  split
  · exact hpresent
  · exact hfiled

/-- Pages without rows stay so, as long as rows are only taken away. -/
theorem Event.Happens.bare {event : Event} {standing after : Standing} {id : TableId} {count : Nat}
    (hhappens : event.Happens standing after) (hbare : standing.Bare id count)
    (hedits : ∀ who edit, event = .edited who edit → edit.place.page.table = id →
      edit.content = none) : after.Bare id count := by
  intro place htable hcount
  obtain ⟨hpresent, hfiled⟩ := hbare place htable hcount
  cases hhappens with
  | quiet => exact ⟨hpresent, hfiled⟩
  | edited howner hfits =>
      rename_i who edit
      refine ⟨?_, hfiled⟩
      simp only [Standing.edited, Rows.set]
      split
      · rename_i hplace
        subst hplace
        exact hedits who edit rfl htable
      · exact hpresent
  | @committed _ who =>
      refine ⟨hpresent, ?_⟩
      simp only [Standing.settled, hpresent, hfiled, ite_self]
  | @dropped _ who =>
      refine ⟨?_, hfiled⟩
      simp only [Standing.reverted, hpresent, hfiled, ite_self]

namespace PlainStore

variable {plain after : PlainStore} {tid who : TransactionId} {address : PageAddress}
  {access : Access} {page : Page} {table : Table} {id : TableId}

/-! ## Inserts need the first page -/

theorem address_of_getPage (hget : plain.getPage tid address access = (.ok page, after)) :
    page.address = address := by
  obtain ⟨locks, -, -, hpage⟩ := of_getPage hget
  exact (of_page hpage).1

theorem table_of_seek {count number : Nat}
    (hseek : (seek tid table count number plain).1 = .ok (some page)) :
    page.address.table = table.id := by
  induction count generalizing plain number with
  | zero => exact absurd hseek (by simp [seek])
  | succ count ih =>
      simp only [seek] at hseek
      cases hget : plain.getPage tid ⟨table.id, UInt32.ofNat number⟩ .readWrite with
      | mk result after =>
          rw [hget] at hseek
          cases result with
          | error error => exact absurd hseek (by simp)
          | ok found =>
              simp only at hseek
              split at hseek
              · obtain rfl := Option.some.inj (Except.ok.inj hseek)
                rw [address_of_getPage hget]
              · exact ih hseek

theorem address_of_grow (hgrow : plain.grow table = (.ok address, after)) :
    address = ⟨table.id, table.pageCount (plain.disk.content table.location)⟩ := by
  unfold grow at hgrow
  split at hgrow
  · exact absurd (Prod.mk.inj hgrow).1 (by simp)
  · rename_i content happend
    obtain rfl := Except.ok.inj (Prod.mk.inj hgrow).1
    exact (Table.appended_of_appendPage happend).1

theorem grow_withDisk (table : Table) (plain : PlainStore) :
    ∃ disk, (plain.grow table).2 = { plain with disk := disk } := by
  unfold grow
  split
  · exact ⟨plain.disk, rfl⟩
  · exact ⟨_, rfl⟩

/-- A page with room is one of the table. -/
theorem table_of_room (hroom : plain.room tid table = (.ok page, after)) :
    page.address.table = table.id := by
  simp only [room] at hroom
  split at hroom
  · exact absurd (Prod.mk.inj hroom).1 (by simp)
  · rename_i mid hseek
    obtain rfl := Except.ok.inj (Prod.mk.inj hroom).1
    exact table_of_seek (congrArg Prod.fst hseek)
  · split at hroom
    · exact absurd (Prod.mk.inj hroom).1 (by simp)
    · rename_i hgrow
      rw [address_of_getPage hroom, address_of_grow hgrow]

/-- A row that is inserted is in the table. -/
theorem table_of_insertRow {row stored : Row}
    (hinsert : (plain.insertRow tid id row).1 = .ok stored) :
    ∃ place, stored.address = some place ∧ place.page.table = id := by
  unfold insertRow at hinsert
  split at hinsert
  · exact absurd hinsert (by simp)
  · rename_i table htable
    split at hinsert
    · split at hinsert
      · exact absurd hinsert (by simp)
      · rename_i page mid hroom
        split at hinsert
        · exact absurd hinsert (by simp)
        · rename_i fuller hplaced
          obtain rfl := Except.ok.inj hinsert
          obtain ⟨place, rfl, hinserted⟩ := Page.inserted_of_insert hplaced
          refine ⟨place, rfl, ?_⟩
          rw [hinserted.onPage, table_of_room hroom, (Catalog.of_table htable).1]
    · exact absurd hinsert (by simp)

/-- A page that another transaction has locked cannot be had for a change. -/
theorem refused_getPage (hguarded : plain.Guarded) (hheld : plain.locks.holds address tid = true)
    (hother : who ≠ tid) : ∃ error, (plain.getPage who address .readWrite).1 = .error error := by
  have hkept := kept_getPage hguarded who address .readWrite
  cases hget : plain.getPage who address .readWrite with
  | mk result after =>
      rw [hget] at hkept
      cases result with
      | error error => exact ⟨error, rfl⟩
      | ok page =>
          have hexclusive := (got_of_getPage hguarded hget).exclusive rfl
          exact absurd (LockTable.alone hexclusive (hkept.holds address tid hheld)).symm hother

theorem refused_room (hguarded : plain.Guarded)
    (hheld : plain.locks.holds ⟨table.id, 0⟩ tid = true) (hother : who ≠ tid) :
    ∃ error, (plain.room who table).1 = .error error := by
  obtain ⟨error, hrefused⟩ := refused_getPage hguarded hheld hother
  simp only [room]
  cases hcount : (table.pageCount (plain.disk.content table.location)).toNat with
  -- the search comes to the first page first
  | succ count =>
      refine ⟨error, ?_⟩
      simp only [seek]
      revert hrefused
      show (plain.getPage who ⟨table.id, UInt32.ofNat 0⟩ .readWrite).1 = _ → _
      rcases plain.getPage who ⟨table.id, UInt32.ofNat 0⟩ .readWrite with ⟨result, after⟩
      rintro rfl
      rfl
  -- there is no page, and the one that is added is the first
  | zero =>
      simp only [seek]
      obtain ⟨disk, hdisk⟩ := grow_withDisk table plain
      cases hgrow : plain.grow table with
      | mk result grown =>
          rw [hgrow] at hdisk
          obtain rfl : grown = { plain with disk := disk } := hdisk
          cases result with
          | error error => exact ⟨error, rfl⟩
          | ok address =>
              have hnumber : table.pageCount (plain.disk.content table.location) = 0 :=
                UInt32.toNat_inj.mp hcount
              have hfirst := address_of_grow hgrow
              rw [hnumber] at hfirst
              subst hfirst
              have hstill : ({ plain with disk := disk } : PlainStore).Guarded :=
                ⟨hguarded.locks, hguarded.owned⟩
              exact refused_getPage hstill hheld hother

/-- Nobody inserts into a table whose first page another transaction has locked. -/
theorem refused_insertRow (hguarded : plain.Guarded)
    (hheld : plain.locks.holds ⟨id, 0⟩ tid = true) (hother : who ≠ tid) (row : Row) :
    ∃ error, (plain.insertRow who id row).1 = .error error := by
  unfold insertRow
  split
  · exact ⟨_, rfl⟩
  · rename_i table htable
    obtain ⟨rfl, -⟩ := Catalog.of_table htable
    split
    · obtain ⟨error, hrefused⟩ := refused_room hguarded hheld hother
      revert hrefused
      rcases plain.room who table with ⟨result, after⟩
      rintro rfl
      exact ⟨error, rfl⟩
    · exact ⟨_, rfl⟩

/-! ## What others cannot change -/

variable {event : Event} {turn : Turn} {edit : Edit}

/-- An edit is an insert into the table of its place, or a delete. -/
theorem of_edited (hevent : Event.of turn.operation (plain.turn turn).1 = .edited who edit) :
    (∃ row stored, turn.operation = .insert who edit.place.page.table row ∧
      (plain.turn turn).1 = .ok (.row stored) ∧
      (plain.insertRow who edit.place.page.table row).1 = .ok stored) ∨
    (∃ row, turn.operation = .delete who row ∧ (plain.turn turn).1 = .ok .done ∧
      row.address = some edit.place ∧ edit.content = none) := by
  cases turn with
  | commit tid order =>
      revert hevent
      simp only [Turn.operation]
      cases (plain.turn (.commit tid order)).1 <;> simp [Event.of]
  | step operation =>
      simp only [Turn.operation, turn, step] at hevent ⊢
      cases operation with
      | insert tid id row =>
          cases hinsert : (plain.insertRow tid id row).1 with
          | error error => simp [Outcome.answering, hinsert, Except.map, Event.of] at hevent
          | ok stored =>
              obtain ⟨place, hplace, rfl⟩ := table_of_insertRow hinsert
              simp only [Outcome.answering, hinsert, Except.map, Event.of, hplace,
                Event.edited.injEq] at hevent
              obtain ⟨rfl, rfl⟩ := hevent
              exact Or.inl ⟨row, stored, rfl, by simp [Outcome.answering, hinsert, Except.map],
                hinsert⟩
      | delete tid row =>
          cases hdelete : (plain.deleteRow tid row).1 with
          | error error => simp [Outcome.answering, hdelete, Except.map, Event.of] at hevent
          | ok _ =>
              cases hplace : row.address with
              | none => simp [Outcome.answering, hdelete, Except.map, Event.of, hplace] at hevent
              | some place =>
                  simp only [Outcome.answering, hdelete, Except.map, Event.of, hplace,
                    Event.edited.injEq] at hevent
                  obtain ⟨rfl, rfl⟩ := hevent
                  exact Or.inr ⟨row, rfl, by simp [Outcome.answering, hdelete, Except.map],
                    hplace, rfl⟩
      | commit tid =>
          revert hevent
          cases (Outcome.answering (plain.endWith tid true) fun _ => Answer.done).1 <;>
            simp [Event.of]
      | _ => exact absurd hevent (by simp [Event.of])

/-- A transaction that does not change a table edits other tables only. -/
theorem elsewhere_of_unchanged
    (hchanges : turn.operation.changes tid id (plain.turn turn).1 = false)
    (hevent : Event.of turn.operation (plain.turn turn).1 = .edited tid edit) :
    edit.place.page.table ≠ id := by
  rintro rfl
  rcases of_edited hevent with
    ⟨row, stored, hinsert, hanswer, -⟩ | ⟨row, hdelete, hanswer, hplace, -⟩
  · simp [hinsert, hanswer, Operation.changes] at hchanges
  · simp [hdelete, hanswer, hplace, Operation.changes] at hchanges

/-- From a table whose first page is locked by a transaction that does not change it, rows can only
be taken away. -/
theorem content_of_edited (hguarded : plain.Guarded)
    (hheld : plain.locks.holds ⟨id, 0⟩ tid = true)
    (hchanges : turn.operation.changes tid id (plain.turn turn).1 = false)
    (hevent : Event.of turn.operation (plain.turn turn).1 = .edited who edit)
    (htable : edit.place.page.table = id) : edit.content = none := by
  have hother : who ≠ tid := by
    rintro rfl
    exact elsewhere_of_unchanged hchanges hevent htable
  subst htable
  rcases of_edited hevent with ⟨row, stored, -, -, hinserted⟩ | ⟨row, -, -, -, hcontent⟩
  · obtain ⟨error, hrefused⟩ := refused_insertRow hguarded hheld hother row
    rw [hinserted] at hrefused
    exact absurd hrefused (by simp)
  · exact hcontent

/-- The rows that a transaction sees on a page that it has locked stay as they are, unless it ends
or changes the page itself. -/
theorem view_of_conducts (hguarded : plain.Guarded) (hconducts : plain.Conducts event after)
    (hheld : plain.locks.holds address tid = true) (hends : event.ends tid = false)
    (hedits : ∀ edit, event = .edited tid edit → edit.place.page ≠ address) :
    (after.standing.view tid).onPage address = (plain.standing.view tid).onPage address := by
  have hstill := hconducts.holds address tid hends hheld
  apply hconducts.happens.view_onPage hends hedits
  · intro who howned
    exact (LockTable.alone (hguarded.owned address who howned) hheld).symm
  · intro who howned
    exact (LockTable.alone (hconducts.guarded.owned address who howned) hstill).symm

/-- A step of a transaction or of another one that leaves alone what the first reads in a table. -/
structure Spares (plain : PlainStore) (tid : TransactionId) (id : TableId) (event : Event)
    (after : PlainStore) : Prop where
  conducts : plain.Conducts event after
  goes : event.ends tid = false
  elsewhere : ∀ edit, event = .edited tid edit → edit.place.page.table ≠ id
  /-- Whoever has locked the first page keeps others from putting rows into the table. -/
  taken : plain.locks.holds ⟨id, 0⟩ tid = true → ∀ who edit, event = .edited who edit →
    edit.place.page.table = id → edit.content = none
  catalog : after.catalog = plain.catalog
  lengths : ∀ id table, plain.catalog.table id = .ok table →
    (plain.disk.content table.location).size ≤ (after.disk.content table.location).size

theorem Kept.spares (hkept : plain.Kept after) (hcatalog : after.catalog = plain.catalog)
    (hdisk : after.disk = plain.disk) : plain.Spares tid id .quiet after where
  conducts := hkept.conducts
  goes := rfl
  elsewhere := fun _ hevent => absurd hevent (by simp)
  taken := fun _ _ _ hevent => absurd hevent (by simp)
  catalog := hcatalog
  lengths := fun _ _ _ => by rw [hdisk]

/-! ## Pages that were read -/

/-- The first pages of a table are locked by the transaction, and have these rows for it. -/
structure Reads (plain : PlainStore) (tid : TransactionId) (table : Table)
    (parts : List (List (Option RecordAddress × List Field))) : Prop where
  registered : plain.catalog.table table.id = .ok table
  inFile : parts.length ≤ (plain.disk.content table.location).size / table.pageSize
  held : ∀ number < parts.length, plain.locks.holds ⟨table.id, .ofNat number⟩ tid = true
  lists : ∀ number part, parts[number]? = some part →
    ((plain.standing.view tid).onPage ⟨table.id, .ofNat number⟩).Lists
      ⟨table.id, .ofNat number⟩ part

/-- These pages are not none, and the table has no rows in others. -/
structure Covers (plain : PlainStore) (tid : TransactionId) (table : Table)
    (parts : List (List (Option RecordAddress × List Field))) : Prop
    extends Reads plain tid table parts where
  first : 0 < parts.length
  bare : plain.standing.Bare table.id parts.length

variable {parts others : List (List (Option RecordAddress × List Field))}

theorem Reads.spared (hreads : plain.Reads tid table parts) (hguarded : plain.Guarded)
    (hspares : plain.Spares tid table.id event after) : after.Reads tid table parts where
  registered := by rw [hspares.catalog, hreads.registered]
  inFile := Nat.le_trans hreads.inFile
    (Nat.div_le_div_right (hspares.lengths _ table hreads.registered))
  held number hnumber := hspares.conducts.holds _ tid hspares.goes (hreads.held number hnumber)
  lists number part hpart := by
    have hnumber : number < parts.length := (List.getElem?_eq_some_iff.mp hpart).1
    rw [view_of_conducts hguarded hspares.conducts (hreads.held number hnumber) hspares.goes]
    · exact hreads.lists number part hpart
    · intro edit hevent hpage
      exact hspares.elsewhere edit hevent (by rw [hpage])

/-- One page more is read. -/
theorem Reads.snoc (hreads : plain.Reads tid table parts)
    (hinFile : parts.length < (plain.disk.content table.location).size / table.pageSize)
    (hheld : plain.locks.holds ⟨table.id, .ofNat parts.length⟩ tid = true)
    {part : List (Option RecordAddress × List Field)}
    (hlists : ((plain.standing.view tid).onPage ⟨table.id, .ofNat parts.length⟩).Lists
      ⟨table.id, .ofNat parts.length⟩ part) : plain.Reads tid table (parts ++ [part]) where
  registered := hreads.registered
  inFile := by
    rw [List.length_append]
    exact hinFile
  held number hnumber := by
    rw [List.length_append, List.length_singleton, Nat.lt_succ_iff_lt_or_eq] at hnumber
    rcases hnumber with hnumber | rfl
    · exact hreads.held number hnumber
    · exact hheld
  lists number other hother := by
    rcases Nat.lt_or_ge number parts.length with hnumber | hnumber
    · rw [List.getElem?_append_left hnumber] at hother
      exact hreads.lists number other hother
    · rw [List.getElem?_append_right hnumber, List.getElem?_singleton] at hother
      split at hother
      · rename_i hlast
        obtain rfl : number = parts.length := by omega
        rwa [← Option.some.inj hother]
      · exact absurd hother (by simp)

theorem Covers.spared (hcovers : plain.Covers tid table parts) (hguarded : plain.Guarded)
    (hspares : plain.Spares tid table.id event after) : after.Covers tid table parts where
  toReads := hcovers.toReads.spared hguarded hspares
  first := hcovers.first
  bare := hspares.conducts.happens.bare hcovers.bare
    (hspares.taken (hcovers.held 0 hcovers.first))

/-- Behind its last page a table has no rows. -/
theorem bare_of_pageCount (hsound : plain.Sound) (hregistered : plain.catalog.table id = .ok table)
    {count : Nat}
    (hcount : (plain.disk.content table.location).size / table.pageSize ≤ count) :
    plain.standing.Bare id count := by
  rintro place rfl hnumber
  have hfiled : plain.catalog.filed? plain.disk place.page = none := by
    rw [Catalog.filed?_eq_of_table hregistered, Table.filed?, if_neg (by omega)]
  have hrows : plain.catalog.rows plain.disk place = none := by
    simp [Catalog.rows, hfiled]
  refine ⟨?_, hrows⟩
  show plain.present place = none
  rw [present_of_unchanged (changed?_of_missing hsound hfiled), hrows]

/-- Pages that are read behind those with all rows have none. -/
theorem Covers.flatten_of_le (hparts : plain.Covers tid table parts)
    (hothers : plain.Reads tid table others)
    (hsmall : table.Small (plain.disk.content table.location))
    (hle : parts.length ≤ others.length) : others.flatten = parts.flatten := by
  have hfront : others.take parts.length = parts := by
    apply List.ext_getElem
    · rw [List.length_take, Nat.min_eq_left hle]
    · intro number hnumber hinside
      rw [List.getElem_take]
      exact (hothers.lists number _ (List.getElem?_eq_getElem _)).unique
        (hparts.lists number _ (List.getElem?_eq_getElem hinside))
  have hback : (others.drop parts.length).flatten = [] := by
    rw [List.flatten_eq_nil_iff]
    intro part hpart
    obtain ⟨number, hnumber, rfl⟩ := List.mem_iff_getElem.mp hpart
    rw [List.length_drop] at hnumber
    rw [List.getElem_drop]
    have hlists := hothers.lists (parts.length + number) _ (List.getElem?_eq_getElem (by omega))
    apply hlists.eq_nil
    intro slot
    have hfits : parts.length + number < UInt32.size := by
      have hinFile := hothers.inFile
      have hlimit : (plain.disk.content table.location).size / table.pageSize < UInt32.size :=
        hsmall
      omega
    have hbehind : parts.length ≤ (UInt32.ofNat (parts.length + number)).toNat := by
      rw [UInt32.toNat_ofNat_of_lt' hfits]
      omega
    simp only [Rows.onPage, if_true]
    exact hparts.bare.view rfl hbehind
  conv_lhs => rw [← List.take_append_drop parts.length others]
  rw [List.flatten_append, hfront, hback, List.append_nil]

/-- Two readings of a whole table give the same rows. -/
theorem Covers.flatten_eq (hparts : plain.Covers tid table parts)
    (hothers : plain.Covers tid table others)
    (hsmall : table.Small (plain.disk.content table.location)) :
    parts.flatten = others.flatten := by
  rcases Nat.le_total parts.length others.length with hle | hle
  · exact (hparts.flatten_of_le hothers.toReads hsmall hle).symm
  · exact hothers.flatten_of_le hparts.toReads hsmall hle

end PlainStore

end HeapStore
