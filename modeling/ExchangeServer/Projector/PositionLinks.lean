import ExchangeServer.Projector.PositionLife
import ExchangeServer.Projector.TradeSteps

/-!
# Links of positions between two queries

A reader that looks up a position and then its fills asks twice, and anything may
be committed in between. The number of a position is not given to another one, the
links of an open position go with it and closed positions stay, so that what is
found under the number is still of the same user.

## Main results

- `Linked.change`: every link is to a position that is there
- `heldBefore_of_run`: a number keeps its user
- `history_of_openLink`, `history_of_closedLink`: what is found under a number later
-/

namespace Projector

open Protocol Relational Transactional Program

/-- Every link of an open position is to one that is there. -/
def Linked (d : ProjectorDb) : Prop :=
  ∀ positionId fillId, d.OpenLink positionId fillId → ∃ owner, d.heldId owner = some positionId

section Linked

variable {d d' : ProjectorDb} {fill : PositionFill} {row : PositionRow} {owner : ℤ × ℤ}

theorem heldId_of_position (h : d.position owner.1 owner.2 = some row) :
    d.heldId owner = some row.positionId := congrArg (Option.map PositionRow.positionId) h

theorem heldId_of_fill (h : fill.position d = some row) :
    d.heldId fill.owner = some row.positionId := @heldId_of_position d row fill.owner h

theorem Change.heldId_other (htables : PositionTables d) (h : Change d fill d')
    (hne : fill.owner ≠ owner) : d'.heldId owner = d.heldId owner :=
  congrArg (Option.map PositionRow.positionId) (h.others htables hne)

theorem Quiet.heldId (h : Quiet d d') (owner : ℤ × ℤ) : d'.heldId owner = d.heldId owner := by
  have hterms := congrArg (Option.map PositionRow.positionId) (h.position owner.1 owner.2)
  rw [Option.map_map, Option.map_map] at hterms
  exact hterms

theorem Linked.quiet (h : Linked d) (hquiet : Quiet d d') : Linked d' := by
  intro positionId fillId hlink
  obtain ⟨owner, hheld⟩ := h positionId fillId (hquiet.openLink.1 hlink)
  exact ⟨owner, (hquiet.heldId owner).trans hheld⟩

/-- A link from before a fill is to a position that stays, or to the one of the user. -/
theorem Linked.still_held (h : Linked d) (htables : PositionTables d) (hchange : Change d fill d')
    {positionId fillId : ℤ} (hlink : d.OpenLink positionId fillId)
    (hown : d.heldId fill.owner = some positionId → d'.heldId fill.owner = some positionId) :
    ∃ owner, d'.heldId owner = some positionId := by
  obtain ⟨owner, hheld⟩ := h positionId fillId hlink
  by_cases howner : fill.owner = owner
  · subst howner
    exact ⟨fill.owner, hown hheld⟩
  · exact ⟨owner, (hchange.heldId_other htables howner).trans hheld⟩

theorem Linked.change (h : Linked d) (htables : PositionTables d) (hchange : Change d fill d') :
    Linked d' := by
  intro positionId fillId hlink
  have hkept := @Linked.still_held d d' fill h htables hchange positionId fillId
  cases hchange with
  | ignores reduceOnly side => exact h positionId fillId hlink
  | opens flat notReduceOnly check stored =>
    rcases openLink_openPosition.1 hlink with ⟨rfl, -⟩ | hold
    · exact ⟨fill.owner, heldId_of_fill (held_openPosition htables flat check)⟩
    · refine hkept hold fun hheld => ?_
      obtain ⟨row, hrow, -⟩ := Option.map_eq_some_iff.1 hheld
      cases flat.symm.trans hrow
  | increases row held side notReduceOnly check =>
    have hafter := heldId_of_fill (held_increased held check)
    rcases openLink_growPosition.1 hlink with ⟨rfl, -⟩ | hold
    · exact ⟨fill.owner, hafter⟩
    · exact hkept hold fun hheld => hafter.trans ((heldId_of_fill held).symm.trans hheld)
  | reduces row held side check less =>
    have hafter := heldId_of_fill (held_reduced held check less)
    exact hkept hlink fun hheld => hafter.trans ((heldId_of_fill held).symm.trans hheld)
  | closes row held side all =>
    obtain ⟨hold, hne⟩ := openLink_closing.1 hlink
    exact hkept hold fun hheld =>
      absurd (Option.some.inj ((heldId_of_fill held).symm.trans hheld)).symm hne
  | reverses row held side left stored =>
    rcases openLink_openPosition.1 hlink with ⟨rfl, -⟩ | hold
    · exact ⟨fill.owner, heldId_of_fill (held_reversed htables held left)⟩
    · obtain ⟨hold, hne⟩ := openLink_closing.1 hold
      exact hkept hold fun hheld =>
        absurd (Option.some.inj ((heldId_of_fill held).symm.trans hheld)).symm hne

end Linked

section Runs

variable {start d d' : ProjectorDb} {steps later : List FillStep} {owner : ℤ × ℤ}
  {positionId fillId : ℤ}

theorem linked_of_run (hstart : NoPositions start) (hrun : FillRun start steps d) : Linked d := by
  induction hrun with
  | start => exact fun positionId fillId hlink => absurd hlink hstart.not_openLink
  | other run quiet ih => exact ih.quiet quiet
  | fill run fill projected ih =>
    have htables := run.tables hstart.tables
    exact ih.change htables (change_of_project htables projected)

theorem FillRun.append {v : ProjectorDb} (h : FillRun d steps v) (h' : FillRun v later d') :
    FillRun d (steps ++ later) d' := by
  induction h' with
  | start =>
    rw [List.append_nil]
    exact h
  | other run quiet ih => exact ih.other quiet
  | fill run fill projected ih =>
    rw [← List.append_assoc]
    exact ih.fill fill projected

theorem LinkTables.quiet (h : LinkTables d) (hquiet : Quiet d d') : LinkTables d' := by
  refine h.extend (hquiet.tables h.tables) hquiet.positionIdSeq (fun positionId fillId hlink => .inl ?_)
    fun positionId fillId hlink => .inl ?_
  · exact hquiet.openLink.1 hlink
  · exact hquiet.closedLink.1 hlink

theorem linkTables_of_run (h : LinkTables d) (hrun : FillRun d later d') :
    LinkTables d' ∧ d.positionIdSeq ≤ d'.positionIdSeq := by
  induction hrun with
  | start => exact ⟨h, le_rfl⟩
  | other run quiet ih => exact ⟨ih.1.quiet quiet, ih.2.trans quiet.positionIdSeq⟩
  | fill run fill projected ih =>
    have hchange := change_of_project ih.1.tables projected
    exact ⟨ih.1.of_change hchange, ih.2.trans hchange.positionIdSeq⟩

/-- A number that had been given is still that of the same user, or of nobody. -/
theorem heldBefore_of_run (h : LinkTables d) (hrun : FillRun d later d')
    (hheld : d'.heldId owner = some positionId) (hold : positionId ≤ d.positionIdSeq) :
    d.heldId owner = some positionId := by
  induction hrun with
  | start => exact hheld
  | other run quiet ih => exact ih ((quiet.heldId owner).symm.trans hheld)
  | fill run fill projected ih =>
    obtain ⟨htables, hseq⟩ := linkTables_of_run h run
    obtain ⟨row, hrow, rfl⟩ := Option.map_eq_some_iff.1 hheld
    have hchange := change_of_project htables.tables projected
    exact ih (hchange.keepsLinks htables hrow (hold.trans hseq)).1

/-- Closed positions stay. -/
theorem Change.closedPositions {fill : PositionFill} (htables : PositionTables d)
    (h : Change d fill d') {row : ClosedPositionRow} (hrow : row ∈ d.closedPositions.rows) :
    row ∈ d'.closedPositions.rows := by
  cases h with
  | ignores reduceOnly side => exact hrow
  | opens flat notReduceOnly check stored => exact hrow
  | increases held hheld side notReduceOnly check => exact hrow
  | reduces held hheld side check less => exact (mem_recordClosed_iff htables fill.fillId rfl).2 (.inr hrow)
  | closes held hheld side all => exact (mem_recordClosed_iff htables fill.fillId rfl).2 (.inr hrow)
  | reverses held hheld side left stored => exact (mem_recordClosed_iff htables fill.fillId rfl).2 (.inr hrow)

theorem closedPositions_of_run (h : LinkTables d) (hrun : FillRun d later d')
    {row : ClosedPositionRow} (hrow : row ∈ d.closedPositions.rows) :
    row ∈ d'.closedPositions.rows := by
  induction hrun with
  | start => exact hrow
  | other run quiet ih =>
    rw [quiet.closedPositions]
    exact ih
  | fill run fill projected ih =>
    have htables := (linkTables_of_run h run).1.tables
    exact (change_of_project htables projected).closedPositions htables ih

/-- The fills that are found later under the number of an open position are in the
history of its user. -/
theorem history_of_openLink (hstart : NoPositions start) (hrun : FillRun start steps d)
    (hlater : FillRun d later d') {row : PositionRow} (hrow : row ∈ d.positions.rows)
    (hlink : d'.OpenLink row.positionId fillId) : fillId ∈ d'.history row.owner := by
  have htables := (keepsFills_of_run hstart hrun).tables
  obtain ⟨owner, hheld⟩ := linked_of_run hstart (hrun.append hlater) _ _ hlink
  have hbefore := heldBefore_of_run htables hlater hheld (htables.tables.positionIds row hrow)
  -- The number belongs to one row.
  obtain ⟨other, hother, hid⟩ := Option.map_eq_some_iff.1 hbefore
  obtain ⟨hmem, howner⟩ := position_eq_some_iff.1 hother
  obtain rfl : other = row := List.inj_on_of_nodup_map d.positions.unique hmem hrow hid
  obtain ⟨found, hfound, hid'⟩ := Option.map_eq_some_iff.1 hheld
  obtain rfl : owner = other.owner := howner.symm
  exact .inl ⟨found, hfound, hid'.symm ▸ hlink⟩

/-- And so are those under the number of a closed one. -/
theorem history_of_closedLink (hstart : NoPositions start) (hrun : FillRun start steps d)
    (hlater : FillRun d later d') {row : ClosedPositionRow} (hrow : row ∈ d.closedPositions.rows)
    (hlink : d'.ClosedLink row.positionId fillId) : fillId ∈ d'.history row.owner :=
  .inr ⟨row, closedPositions_of_run (keepsFills_of_run hstart hrun).tables hlater hrow, rfl, hlink⟩

end Runs

end Projector
