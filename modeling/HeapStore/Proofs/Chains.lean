import HeapStore.Proofs.Opening
import HeapStore.Proofs.Writing

/-!
# Records of a transaction

The log chains the records of each transaction: an update has the one before as its previous
record, and the record of how the transaction ended is the last of its chain.  `Writes.extends`
says which records some writes leave in the log and how they are chained; updates of a transaction
that has no chain yet, with its end behind them, are linked one to the next and leave no chain
(`linked_of_chained`).
-/

namespace HeapStore

namespace Log

variable {last : List (TransactionId × Lsn)} {entries later : List LogEntry} {tid : TransactionId}

/-- The chains of a log after these records. -/
def chains (last : List (TransactionId × Lsn)) : List LogEntry → List (TransactionId × Lsn)
  | [] => last
  | entry :: rest => chains (chain last entry.transaction entry.lsn entry.record) rest

/-- Each of these records has the end of the chain of its transaction as its previous one. -/
def Chained (last : List (TransactionId × Lsn)) : List LogEntry → Prop
  | [] => True
  | entry :: rest =>
    entry.previous = last.lookup entry.transaction ∧
      Chained (chain last entry.transaction entry.lsn entry.record) rest

theorem chains_append (last : List (TransactionId × Lsn)) (entries later : List LogEntry) :
    chains last (entries ++ later) = chains (chains last entries) later := by
  induction entries generalizing last with
  | nil => rfl
  | cons entry entries ih => exact ih _

theorem chained_append :
    Chained last (entries ++ later) ↔
      Chained last entries ∧ Chained (chains last entries) later := by
  induction entries generalizing last with
  | nil => simp [Chained, chains]
  | cons entry entries ih => simp only [List.cons_append, Chained, chains, ih, and_assoc]

end Log

/-- The first record has this previous one, and each other record the one before it. -/
def Linked : Option Lsn → List LogEntry → Prop
  | _, [] => True
  | previous, entry :: rest => entry.previous = previous ∧ Linked (some entry.lsn) rest

/-- The transaction of a record, and the record. -/
def LogEntry.mark (entry : LogEntry) : Mark :=
  (entry.transaction, entry.record)

/-- The record is an update. -/
def LogRecord.isUpdate : LogRecord → Bool
  | .update _ _ _ => true
  | _ => false

theorem isUpdate_of_updates {pages : List PageAddress} {updates : List LogRecord}
    (hupdates : PlainStore.Updates pages updates) :
    ∀ record ∈ updates, record.isUpdate = true := by
  induction hupdates with
  | nil => exact fun _ hrecord => absurd hrecord List.not_mem_nil
  | cons hfirst _ ih =>
      obtain ⟨before, after, rfl⟩ := hfirst
      exact List.forall_mem_cons.mpr ⟨rfl, ih⟩

namespace Log

variable {last : List (TransactionId × Lsn)} {entries : List LogEntry} {tid : TransactionId}

/-- The end of a transaction takes its chain away. -/
theorem chain_of_end {record : LogRecord} (hend : record.isUpdate = false) (lsn : Lsn) :
    chain last tid lsn record = last.filter (·.1 ≠ tid) := by
  cases record with
  | update page before after => exact absurd hend (by simp [LogRecord.isUpdate])
  | commit => rfl
  | abort => rfl

/-- Updates of a transaction and its end are linked, and leave the chains of the others. -/
theorem linked_of_chained {updates : List LogRecord} {ending : LogRecord}
    (hupdates : ∀ record ∈ updates, record.isUpdate = true) (hending : ending.isUpdate = false)
    (hmarks : entries.map LogEntry.mark = marksOf tid (updates ++ [ending]))
    (hchained : Chained last entries) :
    Linked (last.lookup tid) entries ∧ chains last entries = last.filter (·.1 ≠ tid) := by
  induction updates generalizing last entries with
  | nil =>
      obtain ⟨entry, rfl, hmark⟩ := List.map_eq_singleton_iff.mp hmarks
      obtain ⟨rfl, rfl⟩ := Prod.mk.inj hmark
      exact ⟨⟨hchained.1, trivial⟩, chain_of_end hending _⟩
  | cons update updates ih =>
      obtain ⟨entry, rest, rfl, hmark, hrest⟩ := List.map_eq_cons_iff.mp hmarks
      obtain ⟨rfl, rfl⟩ := Prod.mk.inj hmark
      -- the update is the end of the chain now
      have hchain : chain last entry.transaction entry.lsn entry.record
          = (entry.transaction, entry.lsn) :: last.filter (·.1 ≠ entry.transaction) := by
        have hupdate := hupdates entry.record List.mem_cons_self
        revert hupdate
        cases entry.record with
        | update page before after => exact fun _ => rfl
        | commit => simp [LogRecord.isUpdate]
        | abort => simp [LogRecord.isUpdate]
      obtain ⟨hlinked, hchains⟩ := ih
        (fun record hrecord => hupdates record (List.mem_cons_of_mem _ hrecord)) hrest hchained.2
      rw [hchain] at hlinked hchains
      refine ⟨⟨hchained.1, ?_⟩, ?_⟩
      · rwa [List.lookup_cons_self] at hlinked
      · rw [chains, hchain, hchains]
        simp [List.filter_filter]

end Log

/-! ## Records that writes leave -/

section

variable {catalog : Catalog} {may : TableId → Prop} {files after : Files} {marks : List Mark}
  {front : Bytes} {entries : List LogEntry}

/-- The record that is written comes to those that the log has. -/
theorem Files.extends_marked (hlocation : files.log.location ≠ [])
    (hextends : files.log.Extends front (files.disk.content files.log.location) entries)
    {mark : Mark} (hshort : mark.Short) :
    ∃ entry, (files.marked mark).log.Extends front
        ((files.marked mark).disk.content files.log.location) (entries ++ [entry]) ∧
      entry.mark = mark ∧ Log.Chained files.log.last [entry] ∧
      (files.marked mark).log.last = Log.chains files.log.last [entry] := by
  obtain ⟨longer, content, happend, -, hlast, hlonger⟩ := hextends.append mark.1 hshort
  have hmarked : files.marked mark = ⟨longer, files.disk.write files.log.location content⟩ := by
    simp only [Files.marked, Log.after, Log.write, happend]
  refine ⟨⟨files.log.next, mark.1, files.log.last.lookup mark.1, mark.2⟩, ?_, rfl,
    ⟨rfl, trivial⟩, ?_⟩
  · rw [hmarked]
    simp only [Disk.content_write_same _ hlocation]
    exact hlonger
  · rw [hmarked, hlast]
    rfl

theorem Write.extends (hwrite : Write catalog may files marks after)
    (hapart : catalog.Apart files.log.location) (hlocation : files.log.location ≠ [])
    (hextends : files.log.Extends front (files.disk.content files.log.location) entries) :
    ∃ added, after.log.Extends front (after.disk.content files.log.location) (entries ++ added) ∧
      added.map LogEntry.mark = marks ∧ Log.Chained files.log.last added ∧
      after.log.last = Log.chains files.log.last added := by
  cases hwrite with
  | marked hshort =>
      obtain ⟨entry, hlonger, hmark, hchained, hlast⟩ :=
        Files.extends_marked hlocation hextends hshort
      exact ⟨[entry], hlonger, by rw [List.map_singleton, hmark], hchained, hlast⟩
  | @flushed tid page former armed disk hpage hfiled hschema hshort hwrite =>
      obtain ⟨entry, hlonger, hmark, hchained, hlast⟩ :=
        Files.extends_marked hlocation hextends hshort
      obtain ⟨-, -, table, content, htable, -, rfl⟩ := Catalog.of_write hwrite
      refine ⟨[entry], ?_, by rw [List.map_singleton, hmark], hchained, hlast⟩
      simp only [Disk.content_write_other _ (Ne.symm (hapart.of_table htable))]
      exact hlonger
  | grown hmay htable hsmall happended =>
      refine ⟨[], ?_, rfl, trivial, rfl⟩
      simp only [List.append_nil, Disk.content_write_other _ (Ne.symm (hapart.of_table htable))]
      exact hextends

/-- The log has the records of the writes behind those that it had before. -/
theorem Writes.extends (hwrites : Writes catalog may files marks after)
    (hapart : catalog.Apart files.log.location) (hlocation : files.log.location ≠ [])
    (hextends : files.log.Extends front (files.disk.content files.log.location) entries) :
    ∃ added, after.log.Extends front (after.disk.content after.log.location) (entries ++ added) ∧
      added.map LogEntry.mark = marks ∧ Log.Chained files.log.last added ∧
      after.log.last = Log.chains files.log.last added := by
  induction hwrites with
  | nothing => exact ⟨[], by rwa [List.append_nil], rfl, trivial, rfl⟩
  | more hwrites hwrite ih =>
      obtain ⟨added, hmid, hmarks, hchained, hlast⟩ := ih
      have hsame := hwrite.writes.location
      rw [← hwrites.location] at hapart hlocation
      obtain ⟨more, hafter, hmore, hthen, hend⟩ := hwrite.extends hapart hlocation hmid
      rw [hlast] at hthen hend
      refine ⟨added ++ more, ?_, ?_, Log.chained_append.mpr ⟨hchained, hthen⟩, ?_⟩
      · rw [hsame, ← List.append_assoc]
        exact hafter
      · rw [List.map_append, hmarks, hmore]
      · rw [hend, Log.chains_append]

end

end HeapStore
