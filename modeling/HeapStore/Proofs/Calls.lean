import HeapStore.Proofs.Perform

/-!
# Calls that register tables

A call opens one table, opens the tables of a catalog file, or forgets all tables.  What it does to
the catalog is to register some tables one after the other until one of them is refused
(`CatalogCall.registrations`), whatever numbers the files have.

A `Keeper` is something in which tables are registered.  Two keepers that refuse the same tables in
related states give the same replies to all calls (`Keeper.Simulates.run`).

Each call has a disk of its own, with a working directory of its own: it is there that the call
looks for files.  A table that is registered already is known by the location that its file had when
it was opened.  So the canonical path of such a table is fixed, whatever the disks of later calls
are: its path is not followed again.
-/

namespace HeapStore

/-! ## Calls -/

/-- A call that changes which tables are registered.  An opening with any page size is also the
adding of a table that was opened at that time. -/
inductive CatalogCall where
  | openTable (path name : String) (schema : Schema) (primaryKey : Option String) (pageSize : Nat)
  | loadSchema (path : String)
  | clear

/-- The call as an operation of the store. -/
def CatalogCall.operation : CatalogCall → Operation
  | .openTable path name schema primaryKey pageSize =>
    .openTable path name schema primaryKey pageSize
  | .loadSchema path => .loadSchema path
  | .clear => .clearCatalog

/-- The tables that are to be registered one after the other, and the error that comes behind them
if there is one. -/
structure Registrations where
  entries : List CatalogEntry
  stop : Option StoreError

/-- The table with the identity that a numbering of the files gives to its file. -/
def Table.numbered (identity : Location → TableId) (table : Table) : Table :=
  { table with id := identity table.location }

section

variable (identity : Location → TableId) (pageSize : Nat)

/-- The tables of catalog lines up to the first line or file that is no good.  Each opening may make
a file, and the next one finds it there. -/
def Registrations.ofLines (directory : String) : List String → Disk → Registrations
  | [], _ => ⟨[], none⟩
  | line :: rest, disk =>
    match CatalogLine.parse line with
    | .error error => ⟨[], some error⟩
    | .ok definition =>
      match Table.openFile disk (Path.join directory (definition.name ++ ".dat"))
          definition.schema pageSize with
      | (.error error, _) => ⟨[], some error⟩
      | (.ok table, made) =>
        let later := ofLines directory rest made
        ⟨⟨definition.name, definition.primaryKey, table.numbered identity⟩ :: later.entries,
          later.stop⟩

-- what an opening does to the files plays no part, and to unfold it here takes seconds
attribute [local irreducible] Table.openFile in
theorem Registrations.ofLines_cons (directory line : String) (rest : List String) (disk : Disk) :
    ofLines identity pageSize directory (line :: rest) disk =
      match CatalogLine.parse line with
      | .error error => ⟨[], some error⟩
      | .ok definition =>
        match Table.openFile disk (Path.join directory (definition.name ++ ".dat"))
            definition.schema pageSize with
        | (.error error, _) => ⟨[], some error⟩
        | (.ok table, made) =>
          let later := ofLines identity pageSize directory rest made
          ⟨⟨definition.name, definition.primaryKey, table.numbered identity⟩ :: later.entries,
            later.stop⟩ :=
  rfl

/-- What a call asks for, on a disk. -/
def CatalogCall.registrations (disk : Disk) : CatalogCall → Registrations
  | .openTable path name schema primaryKey size =>
    match (Table.openFile disk path schema size).1 with
    | .error error => ⟨[], some error⟩
    | .ok table => ⟨[⟨name, primaryKey, table.numbered identity⟩], none⟩
  | .loadSchema path =>
    match disk.read (Path.ofString path), disk.locate (Path.ofString path) with
    | .ok content, .ok location =>
      match Text.ofUtf8? content.toBytes with
      | some text =>
        .ofLines identity pageSize (Location.render location.dropLast) (CatalogLine.ofText text)
          disk
      | none => ⟨[], some (.file .notUtf8)⟩
    | .error error, _ => ⟨[], some (.ofDisk error)⟩
    | _, .error error => ⟨[], some (.ofDisk error)⟩
  | .clear => ⟨[], none⟩

end

/-! ## Keepers of tables -/

/-- Something in which tables are registered. -/
structure Keeper (σ : Type) where
  register : σ → CatalogEntry → Except StoreError σ
  clear : σ → σ

namespace Keeper

section

variable {σ : Type} (keeper : Keeper σ)

/-- Registers tables until one is refused; those before it stay registered. -/
def registerAll (stop : Option StoreError) :
    List CatalogEntry → σ → Except StoreError (List TableId) × σ
  | [], state =>
    match stop with
    | none => (.ok [], state)
    | some error => (.error error, state)
  | entry :: rest, state =>
    match keeper.register state entry with
    | .error error => (.error error, state)
    | .ok after =>
      ((registerAll stop rest after).1.map (entry.table.id :: ·), (registerAll stop rest after).2)

variable (identity : Location → TableId) (pageSize : Nat)

/-- A call, on the disk as it is then. -/
def call (disk : Disk) (state : σ) (call : CatalogCall) : Except StoreError Reply × σ :=
  match call with
  | .clear => (.ok .done, keeper.clear state)
  | call =>
    let asked := call.registrations identity pageSize disk
    ((keeper.registerAll asked.stop asked.entries state).1.map .tables,
      (keeper.registerAll asked.stop asked.entries state).2)

/-- Calls one after the other, and the replies.  Between them files may be made and filled, and the
working directory may change; the canonical paths of the tables that are registered stay what they
were when the tables were opened. -/
def run : List (Disk × CatalogCall) → σ → List (Except StoreError Reply) × σ
  | [], state => ([], state)
  | (disk, call) :: rest, state =>
    let (reply, after) := keeper.call identity pageSize disk state call
    ((reply :: (run rest after).1), (run rest after).2)

end

/-! ### Keepers that cannot be told apart -/

/-- Both refuse for the same reason, or both go on in related states. -/
inductive Alike {σ τ : Type} (related : σ → τ → Prop) :
    Except StoreError σ → Except StoreError τ → Prop
  | refused (error : StoreError) : Alike related (.error error) (.error error)
  | went {state : σ} {other : τ} (hrelated : related state other) :
      Alike related (.ok state) (.ok other)

/-- Related keepers stay related, whatever table with the right identity is registered. -/
structure Simulates {σ τ : Type} (keeper : Keeper σ) (other : Keeper τ)
    (identity : Location → TableId) (related : σ → τ → Prop) : Prop where
  register : ∀ {state state' entry}, entry.table.id = identity entry.table.location →
    related state state' → Alike related (keeper.register state entry) (other.register state' entry)
  clear : ∀ {state state'}, related state state' →
    related (keeper.clear state) (other.clear state')

/-- All tables that lines define have the identities of their files. -/
theorem numbered_ofLines (identity : Location → TableId) (pageSize : Nat) (directory : String)
    (lines : List String) (disk : Disk) :
    ∀ entry ∈ (Registrations.ofLines identity pageSize directory lines disk).entries,
      entry.table.id = identity entry.table.location := by
  induction lines generalizing disk with
  | nil =>
      intro entry hentry
      exact absurd hentry List.not_mem_nil
  | cons line rest ih =>
      rw [Registrations.ofLines_cons]
      split
      · simp
      · split
        · simp
        · rename_i made _
          intro entry hentry
          rcases List.mem_cons.mp hentry with rfl | hlater
          · rfl
          · exact ih made entry hlater

theorem numbered_registrations (identity : Location → TableId) (pageSize : Nat) (disk : Disk)
    (call : CatalogCall) :
    ∀ entry ∈ (call.registrations identity pageSize disk).entries,
      entry.table.id = identity entry.table.location := by
  cases call with
  | clear => simp [CatalogCall.registrations]
  | openTable path name schema primaryKey size =>
      simp only [CatalogCall.registrations]
      split
      · simp
      · simp [Table.numbered]
  | loadSchema path =>
      simp only [CatalogCall.registrations]
      split
      · split
        · exact numbered_ofLines identity pageSize _ _ disk
        · simp
      · simp
      · simp

section

variable {σ τ : Type} {keeper : Keeper σ} {other : Keeper τ} {identity : Location → TableId}
  {related : σ → τ → Prop} (hsimulates : keeper.Simulates other identity related)
include hsimulates

theorem Simulates.registerAll (stop : Option StoreError) {entries : List CatalogEntry}
    (hnumbered : ∀ entry ∈ entries, entry.table.id = identity entry.table.location) {state : σ}
    {state' : τ} (hrelated : related state state') :
    (keeper.registerAll stop entries state).1 = (other.registerAll stop entries state').1 ∧
      related (keeper.registerAll stop entries state).2
        (other.registerAll stop entries state').2 := by
  induction entries generalizing state state' with
  | nil => cases stop <;> exact ⟨rfl, hrelated⟩
  | cons entry rest ih =>
      have hstep := hsimulates.register (hnumbered entry List.mem_cons_self) hrelated
      simp only [Keeper.registerAll]
      revert hstep
      generalize keeper.register state entry = outcome
      generalize other.register state' entry = outcome'
      intro hstep
      cases hstep with
      | refused error => exact ⟨rfl, hrelated⟩
      | went hafter =>
          obtain ⟨hreply, hlast⟩ :=
            ih (fun later hlater => hnumbered later (List.mem_cons_of_mem _ hlater)) hafter
          exact ⟨congrArg (Except.map (entry.table.id :: ·)) hreply, hlast⟩

theorem Simulates.call (pageSize : Nat) (disk : Disk) (call : CatalogCall) {state : σ} {state' : τ}
    (hrelated : related state state') :
    (keeper.call identity pageSize disk state call).1
        = (other.call identity pageSize disk state' call).1 ∧
      related (keeper.call identity pageSize disk state call).2
        (other.call identity pageSize disk state' call).2 := by
  have hasked := hsimulates.registerAll (call.registrations identity pageSize disk).stop
    (numbered_registrations identity pageSize disk call) hrelated
  cases call with
  | clear => exact ⟨rfl, hsimulates.clear hrelated⟩
  | _ =>
      simp only [Keeper.call]
      exact ⟨by rw [hasked.1], hasked.2⟩

theorem Simulates.run (pageSize : Nat) (calls : List (Disk × CatalogCall)) {state : σ} {state' : τ}
    (hrelated : related state state') :
    (keeper.run identity pageSize calls state).1 = (other.run identity pageSize calls state').1 ∧
      related (keeper.run identity pageSize calls state).2
        (other.run identity pageSize calls state').2 := by
  induction calls generalizing state state' with
  | nil => exact ⟨rfl, hrelated⟩
  | cons first rest ih =>
      obtain ⟨disk, call⟩ := first
      obtain ⟨hreply, hafter⟩ := hsimulates.call pageSize disk call hrelated
      obtain ⟨hreplies, hlast⟩ := ih hafter
      exact ⟨congrArg₂ List.cons hreply hreplies, hlast⟩

end

end Keeper

end HeapStore
