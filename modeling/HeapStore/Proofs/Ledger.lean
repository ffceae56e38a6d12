import HeapStore.Address
import HeapStore.Field

/-!
# Accounts of what transactions change

`Rows` says which rows there are, by their addresses.  A transaction changes them by `Edit`s: an
insert puts fields at a free address, a delete takes those of a used one away.  `replay?` does one
edit after the other and fails if an edit does not fit, so that no row is put over another one and
none is deleted twice.

A `Ledger` holds the edits of all committed transactions in the order of their commits, and for
each transaction those that it has not committed.  A `Standing` is what a store holds: the rows in
the files, the rows with all changes, and which transaction changed which page.
`Accounts` says that both fit each other; it is kept by every `Event` (`Accounts.of_happens`).
-/

namespace HeapStore

/-- The fields of the row at each address, if there is one. -/
abbrev Rows := RecordAddress → Option (List Field)

namespace Rows

/-- The rows with this content at one address. -/
def set (rows : Rows) (place : RecordAddress) (content : Option (List Field)) : Rows :=
  fun other => if other = place then content else rows other

/-- The rows on one page. -/
def onPage (rows : Rows) (page : PageAddress) : Rows :=
  fun place => if place.page = page then rows place else none

end Rows

/-- A row that is put at an address, or taken away if there is no content. -/
structure Edit where
  place : RecordAddress
  content : Option (List Field)

namespace Edit

/-- The rows after an edit.  A row is put only where there is none, and taken away only where there
is one. -/
def enact? (edit : Edit) (rows : Rows) : Option Rows :=
  if (rows edit.place).isSome = edit.content.isSome then none
  else some (rows.set edit.place edit.content)

/-- The edit is on this page. -/
def isOn (page : PageAddress) (edit : Edit) : Bool :=
  edit.place.page = page

end Edit

/-- The rows after some edits; none if one of them does not fit. -/
def replay? : Rows → List Edit → Option Rows
  | rows, [] => some rows
  | rows, edit :: edits => (edit.enact? rows).bind (replay? · edits)

section

variable {rows after : Rows}

theorem Edit.of_enact? {edit : Edit} (henact : edit.enact? rows = some after) :
    (rows edit.place).isSome ≠ edit.content.isSome ∧ after = rows.set edit.place edit.content := by
  unfold enact? at henact
  split at henact
  · exact absurd henact (by simp)
  · rename_i hfits
    exact ⟨hfits, (Option.some.inj henact).symm⟩

/-- Only the content at its own address decides whether an edit fits. -/
theorem Edit.enact?_of_same {edit : Edit} {other : Rows}
    (hsame : other edit.place = rows edit.place) (henact : edit.enact? rows = some after) :
    edit.enact? other = some (other.set edit.place edit.content) := by
  obtain ⟨hfits, -⟩ := of_enact? henact
  rw [enact?, hsame, if_neg hfits]

theorem replay?_append (rows : Rows) (edits later : List Edit) :
    replay? rows (edits ++ later) = (replay? rows edits).bind (replay? · later) := by
  induction edits generalizing rows with
  | nil => rfl
  | cons edit edits ih =>
      simp only [List.cons_append, replay?]
      cases edit.enact? rows with
      | none => rfl
      | some changed => exact ih changed

theorem replay?_singleton (rows : Rows) (edit : Edit) :
    replay? rows [edit] = edit.enact? rows := by
  unfold replay?
  cases edit.enact? rows <;> rfl

/-- Edits on some pages do the same over any rows that have the same on these pages. -/
theorem replay?_elsewhere {on : PageAddress → Bool} {other : Rows} {edits : List Edit}
    (hreplay : replay? rows edits = some after)
    (hon : ∀ edit ∈ edits, on edit.place.page = true)
    (hsame : ∀ place, on place.page = true → other place = rows place) :
    replay? other edits
      = some fun place => if on place.page then after place else other place := by
  induction edits generalizing rows other with
  | nil =>
      obtain rfl := Option.some.inj hreplay
      simp only [replay?, Option.some.injEq]
      funext place
      split
      · rename_i hplace
        exact hsame place hplace
      · rfl
  -- Each edit fits over the other rows, for it looks at its own address only.
  | cons edit edits ih =>
      simp only [replay?] at hreplay ⊢
      cases henact : edit.enact? rows with
      | none => simp [henact] at hreplay
      | some changed =>
          obtain ⟨-, rfl⟩ := Edit.of_enact? henact
          have hplace := hon edit List.mem_cons_self
          rw [Edit.enact?_of_same (hsame _ hplace) henact]
          simp only [henact, Option.bind_some] at hreplay ⊢
          have hset : ∀ place, on place.page = true →
              other.set edit.place edit.content place
                = rows.set edit.place edit.content place := by
            intro place hin
            simp only [Rows.set, hsame place hin]
          rw [ih hreplay (fun later hlater => hon later (List.mem_cons_of_mem _ hlater)) hset]
          simp only [Option.some.injEq]
          funext place
          split
          · rfl
          · rename_i hout
            have hne : place ≠ edit.place := fun heq => hout (heq ▸ hplace)
            simp [Rows.set, hne]

/-- On each page, edits do what those on the page do. -/
theorem replay?_onPage {edits : List Edit} (hreplay : replay? rows edits = some after)
    (page : PageAddress) :
    replay? (rows.onPage page) (edits.filter (Edit.isOn page)) = some (after.onPage page) := by
  induction edits generalizing rows with
  | nil =>
      obtain rfl := Option.some.inj hreplay
      rfl
  | cons edit edits ih =>
      unfold replay? at hreplay
      cases henact : edit.enact? rows with
      | none => simp [henact] at hreplay
      | some changed =>
          simp only [henact, Option.bind_some] at hreplay
          have hrest := ih hreplay
          obtain ⟨hfits, rfl⟩ := Edit.of_enact? henact
          by_cases hpage : edit.place.page = page
          · have hplace : rows.onPage page edit.place = rows edit.place := by
              simp [Rows.onPage, hpage]
            have hset : (rows.set edit.place edit.content).onPage page
                = (rows.onPage page).set edit.place edit.content := by
              funext place
              by_cases hsame : place = edit.place
              · simp [Rows.onPage, Rows.set, hsame, hpage]
              · simp [Rows.onPage, Rows.set, hsame]
            rw [List.filter_cons_of_pos (by simp [Edit.isOn, hpage]), replay?,
              Edit.enact?_of_same hplace henact, ← hset]
            exact hrest
          · have hset : (rows.set edit.place edit.content).onPage page = rows.onPage page := by
              funext place
              by_cases hsame : place = edit.place
              · simp [Rows.onPage, hsame, hpage]
              · simp [Rows.onPage, Rows.set, hsame]
            rw [List.filter_cons_of_neg (by simp [Edit.isOn, hpage]), ← hset]
            exact hrest

end

/-! ## Ledgers -/

/-- What a step of the store means for its transactions. -/
inductive Event where
  | edited (tid : TransactionId) (edit : Edit)
  | committed (tid : TransactionId)
  | dropped (tid : TransactionId)
  | quiet

/-- The transaction ends with the event. -/
def Event.ends (tid : TransactionId) : Event → Bool
  | .committed who => who = tid
  | .dropped who => who = tid
  | _ => false

/-- The edits of the committed transactions, in the order of their commits, and those of each
transaction that it has not committed. -/
structure Ledger where
  committed : List Edit
  pending : TransactionId → List Edit

namespace Ledger

/-- No edits. -/
def empty : Ledger :=
  ⟨[], fun _ => []⟩

/-- The ledger with other pending edits of one transaction. -/
def withPending (ledger : Ledger) (tid : TransactionId) (edits : List Edit) : Ledger :=
  { ledger with pending := fun other => if other = tid then edits else ledger.pending other }

/-- The ledger after an event. -/
def note (ledger : Ledger) : Event → Ledger
  | .edited tid edit => ledger.withPending tid (ledger.pending tid ++ [edit])
  | .committed tid =>
    { ledger.withPending tid [] with committed := ledger.committed ++ ledger.pending tid }
  | .dropped tid => ledger.withPending tid []
  | .quiet => ledger

end Ledger

/-! ## Standings -/

/-- The rows in the files, the rows with all changes, and who changed which page. -/
structure Standing where
  filed : Rows
  present : Rows
  owner : PageAddress → Option TransactionId

namespace Standing

variable (standing : Standing)

/-- The rows that a transaction sees: its own changes over the files. -/
def view (tid : TransactionId) : Rows :=
  fun place => if standing.owner place.page = some tid then standing.present place
    else standing.filed place

/-- The transaction changed the page. -/
def owns (tid : TransactionId) (page : PageAddress) : Bool :=
  standing.owner page = some tid

/-- The changes on some pages went to the files. -/
def settled (on : PageAddress → Bool) : Standing where
  filed place := if on place.page then standing.present place else standing.filed place
  present := standing.present
  owner page := if on page then none else standing.owner page

/-- The changes on some pages were undone. -/
def reverted (on : PageAddress → Bool) : Standing where
  filed := standing.filed
  present place := if on place.page then standing.filed place else standing.present place
  owner page := if on page then none else standing.owner page

/-- A transaction put or took away a row. -/
def edited (tid : TransactionId) (edit : Edit) : Standing where
  filed := standing.filed
  present := standing.present.set edit.place edit.content
  owner page := if page = edit.place.page then some tid else standing.owner page

end Standing

/-- What an event does to a standing.  Nobody edits a page that another transaction changed. -/
inductive Event.Happens : Event → Standing → Standing → Prop
  | quiet (standing : Standing) : Happens .quiet standing standing
  | edited {standing : Standing} {tid : TransactionId} {edit : Edit}
      (howner : ∀ other, standing.owner edit.place.page = some other → other = tid)
      (hfits : (standing.present edit.place).isSome ≠ edit.content.isSome) :
      Happens (.edited tid edit) standing (standing.edited tid edit)
  | committed (standing : Standing) (tid : TransactionId) :
      Happens (.committed tid) standing (standing.settled (standing.owns tid))
  | dropped (standing : Standing) (tid : TransactionId) :
      Happens (.dropped tid) standing (standing.reverted (standing.owns tid))

/-- The ledger accounts for the standing: the files hold the committed edits, what a transaction
sees are its pending edits over the files, and these are on pages that it changed. -/
structure Accounts (initial : Rows) (ledger : Ledger) (standing : Standing) : Prop where
  clean : ∀ place, standing.owner place.page = none → standing.present place = standing.filed place
  committed : replay? initial ledger.committed = some standing.filed
  pending : ∀ tid, replay? standing.filed (ledger.pending tid) = some (standing.view tid)
  owned : ∀ tid, ∀ edit ∈ ledger.pending tid, standing.owner edit.place.page = some tid

namespace Accounts

variable {initial : Rows} {ledger : Ledger} {standing after : Standing}

theorem of_unchanged {filed : Rows} :
    Accounts filed .empty ⟨filed, filed, fun _ => none⟩ :=
  ⟨fun _ _ => rfl, rfl, fun _ => rfl, fun _ _ hedit => absurd hedit List.not_mem_nil⟩

/-- A page that the transaction changed, or that nobody changed, is seen as it is. -/
theorem view_eq_present (haccounts : Accounts initial ledger standing) {tid : TransactionId}
    {place : RecordAddress}
    (howner : ∀ other, standing.owner place.page = some other → other = tid) :
    standing.view tid place = standing.present place := by
  unfold Standing.view
  cases howned : standing.owner place.page with
  | none =>
      rw [if_neg (by simp)]
      exact (haccounts.clean place howned).symm
  | some other =>
      rw [howner other howned, if_pos rfl]

/-- The editor sees the edit over what it saw. -/
theorem view_edited (haccounts : Accounts initial ledger standing) {tid : TransactionId}
    {edit : Edit}
    (howner : ∀ other, standing.owner edit.place.page = some other → other = tid) :
    (standing.edited tid edit).view tid
      = (standing.view tid).set edit.place edit.content := by
  funext place
  by_cases hsame : place = edit.place
  · simp [Standing.view, Standing.edited, Rows.set, hsame]
  · by_cases hpage : place.page = edit.place.page
    -- the page is its own now, and was nobody else's before
    · have hseen : standing.view tid place = standing.present place :=
        haccounts.view_eq_present fun other => by rw [hpage]; exact howner other
      simp only [Rows.set, if_neg hsame, hseen]
      simp [Standing.view, Standing.edited, Rows.set, hsame, hpage]
    · simp [Standing.view, Standing.edited, Rows.set, hsame, hpage]

/-- The others see the page as it is in the file, before and after. -/
theorem view_edited_other {tid other : TransactionId} {edit : Edit}
    (howner : ∀ other, standing.owner edit.place.page = some other → other = tid)
    (hother : other ≠ tid) : (standing.edited tid edit).view other = standing.view other := by
  funext place
  by_cases hpage : place.page = edit.place.page
  · have hnot : standing.owner place.page ≠ some other := by
      intro howned
      rw [hpage] at howned
      exact hother (howner other howned)
    simp only [Standing.view, if_neg hnot]
    simp [Standing.edited, hpage, Ne.symm hother]
  · have hne : place ≠ edit.place := fun heq => hpage (by rw [heq])
    simp [Standing.view, Standing.edited, Rows.set, hpage, hne]

theorem of_edited (haccounts : Accounts initial ledger standing) {tid : TransactionId}
    {edit : Edit} (howner : ∀ other, standing.owner edit.place.page = some other → other = tid)
    (hfits : (standing.present edit.place).isSome ≠ edit.content.isSome) :
    Accounts initial (ledger.note (.edited tid edit)) (standing.edited tid edit) := by
  refine ⟨?_, haccounts.committed, ?_, ?_⟩
  · intro place hnone
    simp only [Standing.edited] at hnone ⊢
    split at hnone
    · exact absurd hnone (by simp)
    · rename_i hpage
      have hne : place ≠ edit.place := fun heq => hpage (by rw [heq])
      simp only [Rows.set, if_neg hne]
      exact haccounts.clean place hnone
  · intro other
    by_cases hother : other = tid
    · subst hother
      have hseen := haccounts.view_eq_present howner
      have hview := haccounts.view_edited howner
      simp only [Ledger.note, Ledger.withPending, if_true, replay?_append, Standing.edited] at *
      rw [haccounts.pending other, Option.bind_some, replay?_singleton, Edit.enact?, hseen,
        if_neg hfits, hview]
    · rw [view_edited_other howner hother]
      simp only [Ledger.note, Ledger.withPending, if_neg hother]
      exact haccounts.pending other
  · intro other later hlater
    simp only [Ledger.note, Ledger.withPending] at hlater
    simp only [Standing.edited]
    by_cases hother : other = tid
    · subst hother
      simp only [if_true, List.mem_append, List.mem_singleton] at hlater
      split
      · rfl
      · rename_i hpage
        rcases hlater with hlater | hlater
        · exact haccounts.owned other later hlater
        · rw [hlater] at hpage
          exact absurd rfl hpage
    · simp only [if_neg hother] at hlater
      have howned := haccounts.owned other later hlater
      split
      · rename_i hpage
        rw [hpage] at howned
        exact absurd (howner other howned) hother
      · exact howned

/-- The pending edits of the other transactions stay where they were. -/
theorem owned_withPending (haccounts : Accounts initial ledger standing) (tid : TransactionId)
    {other : TransactionId} {edit : Edit}
    (hedit : edit ∈ (ledger.withPending tid []).pending other) :
    other ≠ tid ∧ standing.owner edit.place.page = some other := by
  simp only [Ledger.withPending] at hedit
  split at hedit
  · exact absurd hedit List.not_mem_nil
  · rename_i hother
    exact ⟨hother, haccounts.owned other edit hedit⟩

theorem of_committed (haccounts : Accounts initial ledger standing) (tid : TransactionId) :
    Accounts initial (ledger.note (.committed tid)) (standing.settled (standing.owns tid)) := by
  -- The files become what the transaction saw.
  have hfiled : (standing.settled (standing.owns tid)).filed = standing.view tid := by
    funext place
    simp [Standing.settled, Standing.view, Standing.owns]
  refine ⟨?_, ?_, ?_, ?_⟩
  · intro place hnone
    simp only [Standing.settled] at hnone ⊢
    split
    · rfl
    · rename_i howns
      rw [if_neg howns] at hnone
      exact haccounts.clean place hnone
  · unfold Ledger.note
    rw [replay?_append, haccounts.committed, Option.bind_some, haccounts.pending tid, hfiled]
  · intro other
    by_cases hother : other = tid
    · subst hother
      have hview : (standing.settled (standing.owns other)).view other = standing.view other := by
        funext place
        simp only [Standing.view, Standing.settled, Standing.owns]
        by_cases howned : standing.owner place.page = some other
        · simp [howned]
        · simp [howned]
      simp [Ledger.note, Ledger.withPending, replay?, hview, hfiled]
    · -- other pending edits are on other pages
      have hpending := haccounts.pending other
      have hsame : ∀ place, standing.owns other place.page = true →
          (standing.settled (standing.owns tid)).filed place = standing.filed place := by
        intro place howns
        have howned : standing.owner place.page = some other := by
          simpa [Standing.owns] using howns
        simp [Standing.settled, Standing.owns, howned, hother]
      have hreplay := replay?_elsewhere hpending
        (fun edit hedit => by simpa [Standing.owns] using haccounts.owned other edit hedit) hsame
      simp only [Ledger.note, Ledger.withPending, if_neg hother]
      rw [hreplay]
      simp only [Option.some.injEq]
      funext place
      simp only [Standing.view, Standing.owns, Standing.settled]
      by_cases howned : standing.owner place.page = some other
      · simp [howned, hother]
      · by_cases howned' : standing.owner place.page = some tid
        · simp [howned', Ne.symm hother]
        · simp [howned, howned']
  · intro other edit hedit
    obtain ⟨hother, howned⟩ := haccounts.owned_withPending tid hedit
    simp [Standing.settled, Standing.owns, howned, hother]

theorem of_dropped (haccounts : Accounts initial ledger standing) (tid : TransactionId) :
    Accounts initial (ledger.note (.dropped tid)) (standing.reverted (standing.owns tid)) := by
  refine ⟨?_, haccounts.committed, ?_, ?_⟩
  · intro place hnone
    simp only [Standing.reverted] at hnone ⊢
    split
    · rfl
    · rename_i howns
      rw [if_neg howns] at hnone
      exact haccounts.clean place hnone
  · intro other
    by_cases hother : other = tid
    · subst hother
      have hview : (standing.reverted (standing.owns other)).view other = standing.filed := by
        funext place
        simp only [Standing.view, Standing.reverted, Standing.owns]
        by_cases howned : standing.owner place.page = some other
        · simp [howned]
        · simp [howned]
      simp only [Ledger.note, Ledger.withPending, if_true, replay?, hview]
      rfl
    · have hview : (standing.reverted (standing.owns tid)).view other = standing.view other := by
        funext place
        simp only [Standing.view, Standing.reverted, Standing.owns]
        by_cases howned : standing.owner place.page = some tid
        · simp [howned, Ne.symm hother]
        · simp [howned]
      simp only [Ledger.note, Ledger.withPending, if_neg hother, hview]
      exact haccounts.pending other
  · intro other edit hedit
    obtain ⟨hother, howned⟩ := haccounts.owned_withPending tid hedit
    simp [Standing.reverted, Standing.owns, howned, hother]

/-- Every event keeps the accounts. -/
theorem of_happens {event : Event} (haccounts : Accounts initial ledger standing)
    (hhappens : event.Happens standing after) : Accounts initial (ledger.note event) after := by
  cases hhappens with
  | quiet => exact haccounts
  | edited howner hfits => exact haccounts.of_edited howner hfits
  | committed => exact haccounts.of_committed _
  | dropped => exact haccounts.of_dropped _

end Accounts

/-! ## Changed pages -/

/-- On every page that a transaction changed it has a pending edit. -/
def Ledger.Claims (ledger : Ledger) (standing : Standing) : Prop :=
  ∀ page tid, standing.owner page = some tid → ∃ edit ∈ ledger.pending tid, edit.place.page = page

/-- Every event keeps this. -/
theorem Ledger.Claims.of_happens {ledger : Ledger} {standing after : Standing} {event : Event}
    (hclaims : ledger.Claims standing) (hhappens : event.Happens standing after) :
    (ledger.note event).Claims after := by
  -- a page that keeps its owner keeps its edits, unless the owner ends
  have hstays : ∀ tid page who, (if standing.owns tid page then none else standing.owner page)
      = some who → who ≠ tid ∧ ∃ edit ∈ ledger.pending who, edit.place.page = page := by
    intro tid page who howner
    split at howner
    · exact absurd howner (by simp)
    · rename_i howns
      refine ⟨?_, hclaims page who howner⟩
      rintro rfl
      simp [Standing.owns, howner] at howns
  cases hhappens with
  | quiet => exact hclaims
  | @edited _ tid edit _ _ =>
      intro page who howner
      simp only [Standing.edited] at howner
      simp only [note, withPending]
      split at howner
      · rename_i hpage
        obtain rfl := Option.some.inj howner
        exact ⟨edit, by simp, hpage.symm⟩
      · obtain ⟨former, hformer, hpage⟩ := hclaims page who howner
        refine ⟨former, ?_, hpage⟩
        split
        · rename_i hwho
          rw [← hwho]
          exact List.mem_append_left _ hformer
        · exact hformer
  | committed _ tid =>
      intro page who howner
      obtain ⟨hwho, edit, hedit, hpage⟩ := hstays tid page who howner
      exact ⟨edit, by simpa [note, withPending, hwho] using hedit, hpage⟩
  | dropped _ tid =>
      intro page who howner
      obtain ⟨hwho, edit, hedit, hpage⟩ := hstays tid page who howner
      exact ⟨edit, by simpa [note, withPending, hwho] using hedit, hpage⟩

end HeapStore
