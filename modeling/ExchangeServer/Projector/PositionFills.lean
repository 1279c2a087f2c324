import ExchangeServer.Projector.FillRuns
import Mathlib.Data.Set.Insert

/-!
# The fills of positions

Fills are linked to the open position they went into and to the closed positions
they took something from. When a position is closed its links are copied to the
closed position before the delete that takes them away; a fill that reverses a
position is linked to the closed one and to the one it opens.

## Main results

- `Change.records`: what one fill adds to the history of its user
- `Change.endsLinked`: the links of a position that is closed
- `history_is_kept`: histories over whole runs
-/

namespace Projector

open Protocol Relational Transactional Program

/-! ## Links -/

namespace ProjectorDb

/-- The fill is linked to the open position. -/
def OpenLink (d : ProjectorDb) (positionId fillId : ℤ) : Prop :=
  ⟨positionId, fillId⟩ ∈ d.positionFills.rows

/-- The fill is linked to the closed position. -/
def ClosedLink (d : ProjectorDb) (positionId fillId : ℤ) : Prop :=
  ⟨positionId, fillId⟩ ∈ d.closedPositionFills.rows

end ProjectorDb

def ClosedPositionRow.owner (row : ClosedPositionRow) : ℤ × ℤ := (row.userId, row.marketId)

/-- The fill is linked to the open position of the user. -/
def ProjectorDb.OpenFill (d : ProjectorDb) (owner : ℤ × ℤ) (fillId : ℤ) : Prop :=
  ∃ row, d.position owner.1 owner.2 = some row ∧ d.OpenLink row.positionId fillId

/-- The fill is linked to a closed position of the user. -/
def ProjectorDb.ClosedFill (d : ProjectorDb) (owner : ℤ × ℤ) (fillId : ℤ) : Prop :=
  ∃ row ∈ d.closedPositions.rows, row.owner = owner ∧ d.ClosedLink row.positionId fillId

/-- The fills of a user in a market: those of the open position and those of the
closed ones. -/
def ProjectorDb.history (d : ProjectorDb) (owner : ℤ × ℤ) : Set ℤ :=
  {fillId | d.OpenFill owner fillId ∨ d.ClosedFill owner fillId}

/-- Links are to numbers that have been given. -/
structure LinkTables (d : ProjectorDb) : Prop where
  tables : PositionTables d
  openIds : ∀ positionId fillId, d.OpenLink positionId fillId → positionId ≤ d.positionIdSeq
  closedIds : ∀ positionId fillId, d.ClosedLink positionId fillId → positionId ≤ d.positionIdSeq

theorem mem_link_iff {links : Table (id : PositionFillRow → PositionFillRow)}
    {link x : PositionFillRow} : x ∈ (links.upsert link).rows ↔ x = link ∨ x ∈ links.rows := by
  constructor
  · intro hx
    exact (Table.mem_upsert_cases hx).imp_right And.left
  · intro hx
    by_cases heq : x = link
    · subst heq
      exact Table.mem_upsert_self _ _
    · exact Table.mem_upsert_of_ne (hx.resolve_left heq) heq

section Links

variable {d : ProjectorDb} {row : PositionRow} {closedRow : ClosedPositionRow}
  {fill : PositionFill} {fillId positionId g : ℤ}

theorem link_eq_iff {p f : ℤ} :
    (⟨positionId, g⟩ : PositionFillRow) = ⟨p, f⟩ ↔ positionId = p ∧ g = f :=
  ⟨fun h => ⟨congrArg PositionFillRow.positionId h, congrArg PositionFillRow.fillId h⟩,
    fun ⟨hp, hf⟩ => by rw [hp, hf]⟩

theorem openLink_openPosition : (d.openPosition row fillId).OpenLink positionId g ↔
    (positionId = row.positionId ∧ g = fillId) ∨ d.OpenLink positionId g :=
  mem_link_iff.trans (or_congr_left link_eq_iff)

theorem openLink_growPosition : (d.growPosition row fillId).OpenLink positionId g ↔
    (positionId = row.positionId ∧ g = fillId) ∨ d.OpenLink positionId g :=
  mem_link_iff.trans (or_congr_left link_eq_iff)

theorem closedLink_recordClosed : (d.recordClosed closedRow fillId).ClosedLink positionId g ↔
    (positionId = closedRow.positionId ∧ g = fillId) ∨ d.ClosedLink positionId g :=
  mem_link_iff.trans (or_congr_left link_eq_iff)

/-- The fills of the open position are fills of the closed one as well. -/
theorem closedLink_transferFills {openId closedId : ℤ} :
    (d.transferFills openId closedId).ClosedLink positionId g ↔
      d.ClosedLink positionId g ∨ (positionId = closedId ∧ d.OpenLink openId g) := by
  have hfold : ∀ (links : List PositionFillRow)
      (stored : Table (id : PositionFillRow → PositionFillRow)),
      (⟨positionId, g⟩ : PositionFillRow) ∈ (links.foldl (fun links row =>
        links.upsert { positionId := closedId, fillId := row.fillId }) stored).rows ↔
        ⟨positionId, g⟩ ∈ stored.rows ∨
          (positionId = closedId ∧ ∃ link ∈ links, link.fillId = g) := by
    intro links
    induction links with
    | nil => simp
    | cons link links ih =>
      intro stored
      rw [List.foldl_cons, ih, mem_link_iff, link_eq_iff]
      simp only [List.exists_mem_cons_iff]
      constructor
      · rintro ((⟨hid, hg⟩ | hold) | ⟨hid, hlater⟩)
        · exact .inr ⟨hid, .inl hg.symm⟩
        · exact .inl hold
        · exact .inr ⟨hid, .inr hlater⟩
      · rintro (hold | ⟨hid, hg | hlater⟩)
        · exact .inl (.inr hold)
        · exact .inl (.inl ⟨hid, hg.symm⟩)
        · exact .inr ⟨hid, hlater⟩
  refine (hfold _ _).trans (or_congr_right (and_congr_right fun _ => ?_))
  constructor
  · rintro ⟨link, hlink, rfl⟩
    obtain ⟨hstored, hid⟩ := List.mem_filter.1 hlink
    obtain rfl := of_decide_eq_true hid
    exact hstored
  · intro hopen
    exact ⟨⟨openId, g⟩, List.mem_filter.2 ⟨hopen, decide_eq_true rfl⟩, rfl⟩

/-- The links of a closed position go with it. -/
theorem openLink_closing : (fill.closing d row).OpenLink positionId g ↔
    d.OpenLink positionId g ∧ positionId ≠ row.positionId :=
  Table.mem_filter.trans (and_congr_right fun _ => decide_eq_true_iff)

/-- Its fills are kept with the closed position, and so is the closing one. -/
theorem closedLink_closing : (fill.closing d row).ClosedLink positionId g ↔
    d.ClosedLink positionId g ∨
      (positionId = d.positionIdSeq + 1 ∧ (g = fill.fillId ∨ d.OpenLink row.positionId g)) := by
  refine closedLink_transferFills.trans ?_
  rw [closedLink_recordClosed]
  change ((positionId = d.positionIdSeq + 1 ∧ g = fill.fillId) ∨ d.ClosedLink positionId g) ∨
    (positionId = d.positionIdSeq + 1 ∧ d.OpenLink row.positionId g) ↔ _
  rw [or_comm (b := d.ClosedLink positionId g), or_assoc, ← and_or_left]

/-- The closed positions after one has been recorded. -/
theorem mem_recordClosed_iff (htables : PositionTables d) (fillId : ℤ)
    (hid : closedRow.positionId = d.positionIdSeq + 1) {x : ClosedPositionRow} :
    x ∈ (d.recordClosed closedRow fillId).closedPositions.rows ↔
      x = closedRow ∨ x ∈ d.closedPositions.rows := by
  constructor
  · intro hx
    exact (Table.mem_upsert_cases hx).imp_right And.left
  · rintro (rfl | hx)
    · exact Table.mem_upsert_self _ _
    · refine Table.mem_upsert_of_ne hx fun hkey => ?_
      have hle := htables.closedIds x hx
      omega

end Links

/-! ## One fill -/

/-- A fill of a reduce-only order that finds no position of the other side. -/
def PositionFill.Ignored (fill : PositionFill) (d : ProjectorDb) : Prop :=
  fill.context.reduceOnly = true ∧
    ∀ row, fill.position d = some row → row.side = fill.context.side

section OneFill

variable {d d' : ProjectorDb} {fill : PositionFill} {row : PositionRow} {owner : ℤ × ℤ} {g : ℤ}

/-- Positions of different users have different numbers. -/
theorem ne_of_owner_ne {other : PositionRow} (held : fill.position d = some row)
    (hother : d.position owner.1 owner.2 = some other) (hne : fill.owner ≠ owner) :
    other.positionId ≠ row.positionId := by
  intro hid
  obtain ⟨hrow, howner⟩ := position_eq_some_iff.1 held
  obtain ⟨hmem, howner'⟩ := position_eq_some_iff.1 hother
  have hfind := Table.find?_of_mem hmem
  rw [hid, Table.find?_of_mem hrow] at hfind
  cases hfind
  exact hne (howner.symm.trans howner')

theorem PositionTables.le_of_position (htables : PositionTables d) {userId marketId : ℤ}
    (held : d.position userId marketId = some row) : row.positionId ≤ d.positionIdSeq :=
  htables.positionIds row (position_eq_some_iff.1 held).1

/-- The open fills of users whose positions keep their numbers and links. -/
theorem openFill_congr
    (hposition : (d'.position owner.1 owner.2).map PositionRow.positionId =
      (d.position owner.1 owner.2).map PositionRow.positionId)
    (hlink : ∀ row, d.position owner.1 owner.2 = some row →
      (d'.OpenLink row.positionId g ↔ d.OpenLink row.positionId g)) :
    d'.OpenFill owner g ↔ d.OpenFill owner g := by
  constructor
  · rintro ⟨row', held', hopen⟩
    rw [held'] at hposition
    obtain ⟨row, held, hid⟩ := Option.map_eq_some_iff.1 hposition.symm
    exact ⟨row, held, (hlink row held).1 (hid ▸ hopen)⟩
  · rintro ⟨row, held, hopen⟩
    rw [held] at hposition
    obtain ⟨row', held', hid⟩ := Option.map_eq_some_iff.1 hposition
    exact ⟨row', held', hid ▸ (hlink row held).2 hopen⟩

/-- The fill that opens a position is its only one. -/
theorem openFill_openPosition (h : LinkTables d) (flat : fill.position d = none) {quantity : ℤ}
    (check : 0 < quantity) :
    (d.openPosition (fill.openedRow d quantity check) fill.fillId).OpenFill owner g ↔
      d.OpenFill owner g ∨ (fill.owner = owner ∧ g = fill.fillId) := by
  let opening := d.openPosition (fill.openedRow d quantity check) fill.fillId
  have hposition : ∀ userId marketId, opening.position userId marketId = _ :=
    position_openPosition h.tables flat check
  by_cases howner : fill.owner = owner
  · subst howner
    have held : opening.position fill.owner.1 fill.owner.2 =
        some (fill.openedRow d quantity check) := (hposition _ _).trans (if_pos rfl)
    constructor
    · rintro ⟨row', held', hopen⟩
      cases held.symm.trans held'
      rcases openLink_openPosition.1 hopen with ⟨-, hg⟩ | hold
      · exact .inr ⟨rfl, hg⟩
      · -- A new number has no links yet.
        have hle : d.positionIdSeq + 1 ≤ d.positionIdSeq := h.openIds _ _ hold
        omega
    · rintro (⟨row, hrow, -⟩ | ⟨-, hg⟩)
      · exact absurd (flat.symm.trans hrow) (by simp)
      · exact ⟨_, held, openLink_openPosition.2 (.inl ⟨rfl, hg⟩)⟩
  · have hother : opening.position owner.1 owner.2 = d.position owner.1 owner.2 :=
      (hposition _ _).trans (if_neg howner)
    rw [or_iff_left fun hown => howner hown.1]
    refine openFill_congr (congrArg _ hother) fun row held => ?_
    refine openLink_openPosition.trans (or_iff_right fun hnew => ?_)
    have hle := h.tables.le_of_position held
    have hid : row.positionId = d.positionIdSeq + 1 := hnew.1
    omega

theorem openFill_growPosition (held : fill.position d = some row)
    (check : 0 < addI64 row.quantity fill.quantity) :
    (d.growPosition (fill.increasedRow row check) fill.fillId).OpenFill owner g ↔
      d.OpenFill owner g ∨ (fill.owner = owner ∧ g = fill.fillId) := by
  let grown := d.growPosition (fill.increasedRow row check) fill.fillId
  have hposition : ∀ userId marketId, grown.position userId marketId = _ :=
    position_increased held check
  -- A new version has the number of the old one, and so its links.
  by_cases howner : fill.owner = owner
  · subst howner
    have held' : grown.position fill.owner.1 fill.owner.2 = some (fill.increasedRow row check) :=
      (hposition _ _).trans (if_pos rfl)
    constructor
    · rintro ⟨row', hrow', hopen⟩
      cases held'.symm.trans hrow'
      rcases openLink_growPosition.1 hopen with ⟨-, hg⟩ | hold
      · exact .inr ⟨rfl, hg⟩
      · exact .inl ⟨row, held, hold⟩
    · rintro (⟨old, hold, hopen⟩ | ⟨-, hg⟩)
      · cases held.symm.trans hold
        exact ⟨_, held', openLink_growPosition.2 (.inr hopen)⟩
      · exact ⟨_, held', openLink_growPosition.2 (.inl ⟨rfl, hg⟩)⟩
  · have hother : grown.position owner.1 owner.2 = d.position owner.1 owner.2 :=
      (hposition _ _).trans (if_neg howner)
    rw [or_iff_left fun hown => howner hown.1]
    refine openFill_congr (congrArg _ hother) fun other hrow => ?_
    refine openLink_growPosition.trans (or_iff_right fun hnew => ?_)
    exact ne_of_owner_ne held hrow howner hnew.1

/-- A reduction leaves the open fills. -/
theorem openFill_reduced (held : fill.position d = some row) (check : 0 < fill.quantity)
    (less : 0 < row.quantity - fill.quantity) :
    ((d.recordClosed (fill.closedRow d row fill.quantity check) fill.fillId).setPosition
      (reduced row fill.quantity less)).OpenFill owner g ↔ d.OpenFill owner g := by
  refine openFill_congr ?_ fun _ _ => Iff.rfl
  rw [position_reduced held check less]
  split
  · next howner =>
    obtain rfl : fill.owner = owner := howner
    exact (congrArg (Option.map PositionRow.positionId) held).symm
  · rfl

/-- A user whose position has been closed has no open fills. -/
theorem openFill_closing (held : fill.position d = some row) :
    (fill.closing d row).OpenFill owner g ↔ d.OpenFill owner g ∧ fill.owner ≠ owner := by
  have hposition := position_closing held
  by_cases howner : fill.owner = owner
  · subst howner
    constructor
    · rintro ⟨row', held', -⟩
      rw [hposition, if_pos rfl] at held'
      cases held'
    · rintro ⟨-, hne⟩
      exact absurd rfl hne
  · have hother : (fill.closing d row).position owner.1 owner.2 = d.position owner.1 owner.2 :=
      (hposition _ _).trans (if_neg howner)
    rw [and_iff_left howner]
    refine openFill_congr (congrArg _ hother) fun other hrow => ?_
    exact openLink_closing.trans (and_iff_left (ne_of_owner_ne held hrow howner))

/-- The closed fills after a closed position has been recorded with some links. -/
theorem closedFill_of_recorded (closedRow : ClosedPositionRow) {linked : Prop}
    (h : LinkTables d) (hid : closedRow.positionId = d.positionIdSeq + 1)
    (hrows : ∀ x, x ∈ d'.closedPositions.rows ↔ x = closedRow ∨ x ∈ d.closedPositions.rows)
    (hlinks : ∀ positionId, d'.ClosedLink positionId g ↔
      d.ClosedLink positionId g ∨ (positionId = d.positionIdSeq + 1 ∧ linked)) :
    d'.ClosedFill owner g ↔ d.ClosedFill owner g ∨ (closedRow.owner = owner ∧ linked) := by
  constructor
  · rintro ⟨x, hx, howner, hlink⟩
    rcases (hrows x).1 hx with rfl | hx
    · -- The number is new, so its links are those of this moment.
      rcases (hlinks _).1 hlink with hold | ⟨-, hg⟩
      · have hle := h.closedIds _ _ hold
        omega
      · exact .inr ⟨howner, hg⟩
    · rcases (hlinks _).1 hlink with hold | ⟨hnew, -⟩
      · exact .inl ⟨x, hx, howner, hold⟩
      · have hle := h.tables.closedIds x hx
        omega
  · rintro (⟨x, hx, howner, hlink⟩ | ⟨howner, hg⟩)
    · exact ⟨x, (hrows x).2 (.inr hx), howner, (hlinks _).2 (.inl hlink)⟩
    · exact ⟨closedRow, (hrows closedRow).2 (.inl rfl), howner, (hlinks _).2 (.inr ⟨hid, hg⟩)⟩

theorem closedFill_recordClosed (h : LinkTables d) {quantity : ℤ} (check : 0 < quantity) :
    (d.recordClosed (fill.closedRow d row quantity check) fill.fillId).ClosedFill owner g ↔
      d.ClosedFill owner g ∨ (fill.owner = owner ∧ g = fill.fillId) :=
  closedFill_of_recorded (fill.closedRow d row quantity check) h rfl
    (fun _ => mem_recordClosed_iff h.tables fill.fillId rfl) fun _ => closedLink_recordClosed.trans or_comm

theorem closedFill_closing (h : LinkTables d) (held : fill.position d = some row) :
    (fill.closing d row).ClosedFill owner g ↔
      d.ClosedFill owner g ∨ (fill.owner = owner ∧ (g = fill.fillId ∨ d.OpenFill owner g)) := by
  have hrows : ∀ x, x ∈ (fill.closing d row).closedPositions.rows ↔
      x = fill.closedRow d row row.quantity row.check ∨ x ∈ d.closedPositions.rows :=
    fun _ => mem_recordClosed_iff h.tables fill.fillId rfl
  refine (closedFill_of_recorded _ h rfl hrows fun _ => closedLink_closing).trans ?_
  refine or_congr_right (and_congr_right fun howner => or_congr_right ?_)
  change fill.owner = owner at howner
  subst howner
  constructor
  · intro hopen
    exact ⟨row, held, hopen⟩
  · rintro ⟨other, hother, hopen⟩
    cases held.symm.trans hother
    exact hopen

/-- The history of the user gets the fill, and all others stay. -/
def Records (d d' : ProjectorDb) (fill : PositionFill) : Prop :=
  ∀ owner g, g ∈ d'.history owner ↔ g ∈ d.history owner ∨ (fill.owner = owner ∧ g = fill.fillId)

/-- Links that are added have numbers of the sequence. -/
theorem LinkTables.extend (h : LinkTables d) (htables : PositionTables d')
    (hseq : d.positionIdSeq ≤ d'.positionIdSeq)
    (hopen : ∀ positionId f, d'.OpenLink positionId f →
      d.OpenLink positionId f ∨ positionId ≤ d'.positionIdSeq)
    (hclosed : ∀ positionId f, d'.ClosedLink positionId f →
      d.ClosedLink positionId f ∨ positionId ≤ d'.positionIdSeq) : LinkTables d' where
  tables := htables
  openIds positionId f hlink := by
    rcases hopen positionId f hlink with hold | hnew
    · exact (h.openIds positionId f hold).trans hseq
    · exact hnew
  closedIds positionId f hlink := by
    rcases hclosed positionId f hlink with hold | hnew
    · exact (h.closedIds positionId f hold).trans hseq
    · exact hnew

theorem LinkTables.openPosition (h : LinkTables d) {quantity : ℤ} {check : 0 < quantity}
    (htables : PositionTables (d.openPosition (fill.openedRow d quantity check) fill.fillId)) :
    LinkTables (d.openPosition (fill.openedRow d quantity check) fill.fillId) := by
  refine h.extend htables (lt_add_one d.positionIdSeq).le (fun positionId f hlink => ?_)
    fun positionId f => .inl
  exact (openLink_openPosition.1 hlink).symm.imp_right fun hnew => hnew.1.le

theorem LinkTables.closing (h : LinkTables d) : LinkTables (fill.closing d row) := by
  refine h.extend (h.tables.closePosition rfl) (lt_add_one d.positionIdSeq).le
    (fun positionId f hlink => ?_) fun positionId f hlink => ?_
  · exact .inl (openLink_closing.1 hlink).1
  · exact (closedLink_closing.1 hlink).imp_right fun hnew => hnew.1.le

theorem LinkTables.of_change (h : LinkTables d) (hchange : Change d fill d') : LinkTables d' := by
  have htables : PositionTables d' := hchange.tables h.tables
  cases hchange with
  | ignores reduceOnly side => exact h
  | opens flat notReduceOnly check stored => exact h.openPosition htables
  | increases row held side notReduceOnly check =>
    refine h.extend htables le_rfl (fun positionId f hlink => ?_) fun positionId f => .inl
    have hle : row.positionId ≤ d.positionIdSeq := h.tables.le_of_position held
    exact (openLink_growPosition.1 hlink).symm.imp_right fun hnew => hnew.1.trans_le hle
  | reduces row held side check less =>
    refine h.extend htables (lt_add_one d.positionIdSeq).le (fun positionId f => .inl)
      fun positionId f hlink => ?_
    exact (closedLink_recordClosed.1 hlink).symm.imp_right fun hnew => hnew.1.le
  | closes row held side all => exact h.closing
  | reverses row held side left stored => exact LinkTables.openPosition h.closing htables

theorem addI64_ne {x y : ℤ} (hpos : 0 < y) (hfits : y < 2 ^ 63) : addI64 x y ≠ x := by
  unfold addI64 Int.bmod
  simp only
  split <;> omega

/-- The fills that are ignored are those that leave the position of their user. -/
theorem Change.ignored_iff (htables : PositionTables d) (hchange : Change d fill d')
    (hfits : fill.quantity < 2 ^ 63) (hpos : 0 < fill.quantity) :
    fill.Ignored d ↔ fill.position d' = fill.position d := by
  constructor
  · intro hignored
    cases hchange with
    | ignores reduceOnly side => rfl
    | opens flat notReduceOnly check stored =>
      exact absurd (notReduceOnly.symm.trans hignored.1) (by decide)
    | increases row held side notReduceOnly check =>
      exact absurd (notReduceOnly.symm.trans hignored.1) (by decide)
    | reduces row held side check less => exact absurd (hignored.2 row held) side
    | closes row held side all => exact absurd (hignored.2 row held) side
    | reverses row held side left stored => exact absurd (hignored.2 row held) side
  · intro hsame
    cases hchange with
    | ignores reduceOnly side => exact ⟨reduceOnly, side⟩
    | opens flat notReduceOnly check stored =>
      have hopened := held_openPosition htables flat check
      cases (flat.symm.trans hsame.symm).trans hopened
    | increases row held side notReduceOnly check =>
      have hincreased := held_increased held check
      have hrow := Option.some.inj ((held.symm.trans hsame.symm).trans hincreased)
      exact absurd (congrArg PositionRow.quantity hrow).symm (addI64_ne hpos hfits)
    | reduces row held side check less =>
      have hreduced := held_reduced held check less
      have hrow := Option.some.inj ((held.symm.trans hsame.symm).trans hreduced)
      have hquantity : row.quantity = row.quantity - fill.quantity :=
        congrArg PositionRow.quantity hrow
      omega
    | closes row held side all =>
      have hclosed := flat_closing held
      cases (held.symm.trans hsame.symm).trans hclosed
    | reverses row held side left stored =>
      have hopened := held_reversed htables held left
      have hrow := Option.some.inj ((held.symm.trans hsame.symm).trans hopened)
      exact absurd (congrArg PositionRow.side hrow) side

/-- A fill that is ignored changes nothing, and every other is recorded for its user. -/
theorem Change.records (h : LinkTables d) (hchange : Change d fill d') :
    fill.Ignored d ∧ d' = d ∨ ¬fill.Ignored d ∧ Records d d' fill := by
  cases hchange with
  | ignores reduceOnly side => exact .inl ⟨⟨reduceOnly, side⟩, rfl⟩
  | opens flat notReduceOnly check stored =>
    refine .inr ⟨fun hignored => ?_, fun owner g => ?_⟩
    · exact absurd (notReduceOnly.symm.trans hignored.1) (by decide)
    · exact (or_congr_left (openFill_openPosition h flat check)).trans or_right_comm
  | increases row held side notReduceOnly check =>
    refine .inr ⟨fun hignored => ?_, fun owner g => ?_⟩
    · exact absurd (notReduceOnly.symm.trans hignored.1) (by decide)
    · exact (or_congr_left (openFill_growPosition held check)).trans or_right_comm
  | reduces row held side check less =>
    refine .inr ⟨fun hignored => side (hignored.2 row held), fun owner g => ?_⟩
    exact (or_congr (openFill_reduced held check less)
      (closedFill_recordClosed h check)).trans or_assoc.symm
  | closes row held side all =>
    refine .inr ⟨fun hignored => side (hignored.2 row held), fun owner g => ?_⟩
    refine (or_congr (openFill_closing held) (closedFill_closing h held)).trans ?_
    show _ ↔ (d.OpenFill owner g ∨ d.ClosedFill owner g) ∨ _
    tauto
  | reverses row held side left stored =>
    refine .inr ⟨fun hignored => side (hignored.2 row held), fun owner g => ?_⟩
    have hflat : fill.position (fill.closing d row) = none := flat_closing held
    refine (or_congr (openFill_openPosition h.closing hflat left)
      (closedFill_closing h held)).trans ?_
    rw [openFill_closing held]
    show _ ↔ (d.OpenFill owner g ∨ d.ClosedFill owner g) ∨ _
    tauto

end OneFill

/-! ## Whole positions -/

/-- The fill has opened the position with this number, or made it larger. -/
def FillStep.Enlarges (step : FillStep) (positionId : ℤ) : Prop :=
  ∃ row', step.fill.position step.after = some row' ∧ row'.positionId = positionId ∧
    ∀ row, step.fill.position step.before = some row → row.positionId = positionId →
      row.quantity < row'.quantity

/-- The fill has closed this position completely. -/
def FillStep.Ends (step : FillStep) (row : PositionRow) : Prop :=
  step.fill.position step.before = some row ∧
    ∀ row', step.fill.position step.after = some row' → row'.positionId ≠ row.positionId

/-- The closed position written for a position that ends has all of its fills and the
closing one. -/
def FillStep.EndsLinked (step : FillStep) (row : PositionRow) : Prop :=
  ∃ closedRow ∈ step.after.closedPositions.rows, closedRow ∉ step.before.closedPositions.rows ∧
    closedRow.owner = row.owner ∧ closedRow.quantity = row.quantity ∧
    ∀ fillId, step.after.ClosedLink closedRow.positionId fillId ↔
      step.before.OpenLink row.positionId fillId ∨ fillId = step.fill.fillId

section Whole

variable {d d' : ProjectorDb} {fill : PositionFill} {row : PositionRow}

/-- A fill is linked to the position that it has opened or enlarged. -/
theorem Change.enlarges (h : LinkTables d) (hchange : Change d fill d') {positionId : ℤ}
    (henlarges : FillStep.Enlarges ⟨d, fill, d'⟩ positionId) :
    positionId ≤ d'.positionIdSeq ∧ d'.OpenLink positionId fill.fillId := by
  have h' : LinkTables d' := h.of_change hchange
  obtain ⟨row', held', rfl, hlarger⟩ := henlarges
  -- Only an opening, an increase and a reversal leave more than there was.
  have hlinked : d'.OpenLink row'.positionId fill.fillId := by
    cases hchange with
    | ignores reduceOnly side => exact absurd (hlarger row' held' rfl) (lt_irrefl _)
    | opens flat notReduceOnly check stored =>
      have hopened := held_openPosition h.tables flat check
      cases held'.symm.trans hopened
      exact openLink_openPosition.2 (.inl ⟨rfl, rfl⟩)
    | increases row held side notReduceOnly check =>
      have hincreased := held_increased held check
      cases held'.symm.trans hincreased
      exact openLink_growPosition.2 (.inl ⟨rfl, rfl⟩)
    | reduces row held side check less =>
      have hreduced := held_reduced held check less
      cases held'.symm.trans hreduced
      have hmore : row.quantity < row.quantity - fill.quantity := hlarger row held rfl
      omega
    | closes row held side all =>
      have hclosed := flat_closing held
      cases held'.symm.trans hclosed
    | reverses row held side left stored =>
      have hopened := held_reversed h.tables held left
      cases held'.symm.trans hopened
      exact openLink_openPosition.2 (.inl ⟨rfl, rfl⟩)
  exact ⟨h'.openIds _ _ hlinked, hlinked⟩

/-- A position that stays open through a fill keeps its links. -/
theorem Change.keepsLinks (h : LinkTables d) (hchange : Change d fill d') {owner : ℤ × ℤ}
    {row' : PositionRow} (held' : d'.position owner.1 owner.2 = some row')
    (hold : row'.positionId ≤ d.positionIdSeq) :
    (d.position owner.1 owner.2).map PositionRow.positionId = some row'.positionId ∧
      ∀ g, d.OpenLink row'.positionId g → d'.OpenLink row'.positionId g := by
  by_cases howner : fill.owner = owner
  · subst howner
    cases hchange with
    | ignores reduceOnly side => exact ⟨congrArg _ held', fun _ => id⟩
    | opens flat notReduceOnly check stored =>
      have hopened := held_openPosition h.tables flat check
      cases held'.symm.trans hopened
      exact absurd hold (not_le.2 (lt_add_one d.positionIdSeq))
    | increases row held side notReduceOnly check =>
      have hincreased := held_increased held check
      cases held'.symm.trans hincreased
      exact ⟨congrArg (Option.map PositionRow.positionId) held,
        fun _ hlink => openLink_growPosition.2 (.inr hlink)⟩
    | reduces row held side check less =>
      have hreduced := held_reduced held check less
      cases held'.symm.trans hreduced
      exact ⟨congrArg (Option.map PositionRow.positionId) held, fun _ => id⟩
    | closes row held side all =>
      have hclosed := flat_closing held
      cases held'.symm.trans hclosed
    | reverses row held side left stored =>
      have hopened := held_reversed h.tables held left
      cases held'.symm.trans hopened
      exact absurd hold (not_le.2 ((lt_add_one d.positionIdSeq).trans (lt_add_one _)))
  · -- The position of another user has another number than the one that is deleted.
    have held : d.position owner.1 owner.2 = some row' :=
      (hchange.others h.tables howner).symm.trans held'
    refine ⟨congrArg _ held, fun g hlink => ?_⟩
    cases hchange with
    | ignores reduceOnly side => exact hlink
    | opens flat notReduceOnly check stored => exact openLink_openPosition.2 (.inr hlink)
    | increases row hrow side notReduceOnly check => exact openLink_growPosition.2 (.inr hlink)
    | reduces row hrow side check less => exact hlink
    | closes row hrow side all =>
      exact openLink_closing.2 ⟨hlink, ne_of_owner_ne hrow held howner⟩
    | reverses row hrow side left stored =>
      exact openLink_openPosition.2
        (.inr (openLink_closing.2 ⟨hlink, ne_of_owner_ne hrow held howner⟩))

/-- The closed position of a position that is closed completely. -/
theorem endsLinked_of_closing (h : LinkTables d) (held : fill.position d = some row)
    (hrows : d'.closedPositions = (fill.closing d row).closedPositions)
    (hlinks : d'.closedPositionFills = (fill.closing d row).closedPositionFills) :
    FillStep.EndsLinked ⟨d, fill, d'⟩ row := by
  let closedRow := fill.closedRow d row row.quantity row.check
  have hlinked : ∀ g, d'.ClosedLink (d.positionIdSeq + 1) g ↔
      d.OpenLink row.positionId g ∨ g = fill.fillId := by
    intro g
    unfold ProjectorDb.ClosedLink
    rw [hlinks]
    refine closedLink_closing.trans ?_
    have hnone : ¬d.ClosedLink (d.positionIdSeq + 1) g := fun hold => by
      have hle := h.closedIds _ _ hold
      omega
    rw [or_iff_right hnone, and_iff_right rfl, or_comm]
  refine ⟨closedRow, ?_, fun hmem => ?_, (position_eq_some_iff.1 held).2.symm, rfl, hlinked⟩
  · show closedRow ∈ d'.closedPositions.rows
    rw [hrows]
    exact (mem_recordClosed_iff h.tables fill.fillId rfl).2 (.inl rfl)
  · have hle : d.positionIdSeq + 1 ≤ d.positionIdSeq := h.tables.closedIds closedRow hmem
    omega

theorem Change.endsLinked (h : LinkTables d) (hchange : Change d fill d')
    (hends : FillStep.Ends ⟨d, fill, d'⟩ row) : FillStep.EndsLinked ⟨d, fill, d'⟩ row := by
  have held : fill.position d = some row := hends.1
  have hgone : ∀ row', fill.position d' = some row' → row'.positionId ≠ row.positionId := hends.2
  cases hchange with
  | ignores reduceOnly side => exact absurd rfl (hgone row held)
  | opens flat notReduceOnly check stored => cases flat.symm.trans held
  | increases old hold side notReduceOnly check =>
    cases held.symm.trans hold
    have hincreased := held_increased held check
    exact absurd rfl (hgone (fill.increasedRow row check) hincreased)
  | reduces old hold side check less =>
    cases held.symm.trans hold
    have hreduced := held_reduced held check less
    exact absurd rfl (hgone (reduced row fill.quantity less) hreduced)
  | closes old hold side all =>
    cases held.symm.trans hold
    exact endsLinked_of_closing h held rfl rfl
  | reverses old hold side left stored =>
    cases held.symm.trans hold
    exact endsLinked_of_closing h held rfl rfl

end Whole

/-! ## Runs -/

/-- What is known of the steps of a run. -/
structure KeepsFills (steps : List FillStep) (d : ProjectorDb) : Prop where
  tables : LinkTables d
  history : ∀ owner g, g ∈ d.history owner ↔
    ∃ step ∈ steps, step.fill.owner = owner ∧ ¬step.fill.Ignored step.before ∧
      step.fill.fillId = g
  enlarged : ∀ step ∈ steps, ∀ positionId, step.Enlarges positionId →
    positionId ≤ d.positionIdSeq ∧ ∀ (owner : ℤ × ℤ) row, d.position owner.1 owner.2 = some row →
      row.positionId = positionId → d.OpenLink positionId step.fill.fillId
  ended : ∀ step ∈ steps, ∀ row, step.Ends row → step.EndsLinked row

section Runs

variable {d d' : ProjectorDb} {steps : List FillStep} {fill : PositionFill}

theorem Quiet.openLink (h : Quiet d d') {positionId fillId : ℤ} :
    d'.OpenLink positionId fillId ↔ d.OpenLink positionId fillId := by
  unfold ProjectorDb.OpenLink
  rw [h.positionFills]

theorem Quiet.closedLink (h : Quiet d d') {positionId fillId : ℤ} :
    d'.ClosedLink positionId fillId ↔ d.ClosedLink positionId fillId := by
  unfold ProjectorDb.ClosedLink
  rw [h.closedPositionFills]

theorem KeepsFills.quiet (h : KeepsFills steps d) (hquiet : Quiet d d') : KeepsFills steps d' where
  tables := by
    refine h.tables.extend (hquiet.tables h.tables.tables) hquiet.positionIdSeq
      (fun positionId f hlink => .inl ?_) fun positionId f hlink => .inl ?_
    · exact hquiet.openLink.1 hlink
    · exact hquiet.closedLink.1 hlink
  history owner g := by
    have hposition : (d'.position owner.1 owner.2).map PositionRow.positionId =
        (d.position owner.1 owner.2).map PositionRow.positionId := by
      have hterms := congrArg (Option.map PositionRow.positionId)
        (hquiet.position owner.1 owner.2)
      rw [Option.map_map, Option.map_map] at hterms
      exact hterms
    have hopen : d'.OpenFill owner g ↔ d.OpenFill owner g := by
      exact openFill_congr hposition fun row _ => hquiet.openLink
    have hclosed : d'.ClosedFill owner g ↔ d.ClosedFill owner g := by
      unfold ProjectorDb.ClosedFill ProjectorDb.ClosedLink
      rw [hquiet.closedPositions, hquiet.closedPositionFills]
    exact (or_congr hopen hclosed).trans (h.history owner g)
  enlarged step hstep positionId henlarges := by
    obtain ⟨hle, hlinked⟩ := h.enlarged step hstep positionId henlarges
    refine ⟨hle.trans hquiet.positionIdSeq, fun owner row held hid => ?_⟩
    obtain ⟨old, hold, hterms⟩ := hquiet.held held
    have hsame : old.terms.positionId = row.terms.positionId :=
      congrArg PositionRow.positionId hterms
    exact hquiet.openLink.2 (hlinked owner old hold (hsame.trans hid))
  ended := h.ended

theorem KeepsFills.change (h : KeepsFills steps d) (hchange : Change d fill d') :
    KeepsFills (steps ++ [⟨d, fill, d'⟩]) d' where
  tables := h.tables.of_change hchange
  history owner g := by
    simp only [List.mem_append, List.mem_singleton, or_and_right, exists_or, exists_eq_left]
    -- A fill that is ignored adds nothing on either side.
    rcases hchange.records h.tables with ⟨hignored, rfl⟩ | ⟨hnot, hrecords⟩
    · exact (h.history owner g).trans (or_iff_left fun hlast => hlast.2.1 hignored).symm
    · refine (hrecords owner g).trans (or_congr (h.history owner g) ?_)
      rw [and_iff_right hnot, eq_comm (a := g)]
  enlarged step hstep positionId henlarges := by
    rcases List.mem_append.1 hstep with hstep | hlast
    · obtain ⟨hle, hlinked⟩ := h.enlarged step hstep positionId henlarges
      have hseq : d.positionIdSeq ≤ d'.positionIdSeq := hchange.positionIdSeq
      refine ⟨hle.trans hseq, fun owner row held hid => ?_⟩
      -- The number was given before, so the position is the same as before.
      subst hid
      obtain ⟨hsame, hkept⟩ := hchange.keepsLinks h.tables held hle
      obtain ⟨old, hold, hid⟩ := Option.map_eq_some_iff.1 hsame
      exact hkept _ (hlinked owner old hold hid)
    · obtain rfl := List.mem_singleton.1 hlast
      obtain ⟨hle, hlinked⟩ := hchange.enlarges h.tables henlarges
      exact ⟨hle, fun owner row held hid => hlinked⟩
  ended step hstep row hends := by
    rcases List.mem_append.1 hstep with hstep | hlast
    · exact h.ended step hstep row hends
    · obtain rfl := List.mem_singleton.1 hlast
      exact hchange.endsLinked h.tables hends

/-- There are no positions and no closed positions yet. -/
structure NoPositions (d : ProjectorDb) : Prop where
  positions : d.positions.rows = []
  closedPositions : d.closedPositions.rows = []
  positionFills : d.positionFills.rows = []
  closedPositionFills : d.closedPositionFills.rows = []

theorem NoPositions.tables (h : NoPositions d) : PositionTables d := by
  refine ⟨fun row hrow => ?_, fun row hrow => ?_, fun row hrow => ?_⟩
  · exact absurd (h.positions ▸ hrow) List.not_mem_nil
  · exact absurd (h.closedPositions ▸ hrow) List.not_mem_nil
  · exact absurd (h.positions ▸ hrow) List.not_mem_nil

theorem NoPositions.not_openLink (h : NoPositions d) {positionId fillId : ℤ} :
    ¬d.OpenLink positionId fillId := by
  unfold ProjectorDb.OpenLink
  rw [h.positionFills]
  exact List.not_mem_nil

theorem NoPositions.not_closedLink (h : NoPositions d) {positionId fillId : ℤ} :
    ¬d.ClosedLink positionId fillId := by
  unfold ProjectorDb.ClosedLink
  rw [h.closedPositionFills]
  exact List.not_mem_nil

theorem NoPositions.keepsFills (h : NoPositions d) : KeepsFills [] d where
  tables := by
    refine ⟨h.tables, fun positionId f hlink => ?_, fun positionId f hlink => ?_⟩
    · exact absurd hlink h.not_openLink
    · exact absurd hlink h.not_closedLink
  history owner g := by
    constructor
    · rintro (⟨row, held, hlink⟩ | ⟨row, hrow, howner, hlink⟩)
      · exact absurd hlink h.not_openLink
      · exact absurd hlink h.not_closedLink
    · rintro ⟨step, hstep, -⟩
      exact absurd hstep List.not_mem_nil
  enlarged step hstep := absurd hstep List.not_mem_nil
  ended step hstep := absurd hstep List.not_mem_nil

theorem keepsFills_of_run (h : NoPositions d) (hrun : FillRun d steps d') :
    KeepsFills steps d' := by
  induction hrun with
  | start => exact h.keepsFills
  | other run quiet ih => exact ih.quiet quiet
  | fill run fill projected ih => exact ih.change (change_of_project ih.tables.tables projected)

/-- The history of positions keeps every fill: after any run, the fills linked to the
positions of a user are those that have not been ignored; the open position has all
that opened or enlarged it; and a position that was closed has left all of its fills
and the closing one to its closed position. -/
theorem history_is_kept (h : NoPositions d) (hrun : FillRun d steps d') :
    (∀ owner, d'.history owner = {fillId | ∃ step ∈ steps, step.fill.owner = owner ∧
      ¬step.fill.Ignored step.before ∧ step.fill.fillId = fillId}) ∧
    (∀ (owner : ℤ × ℤ) row, d'.position owner.1 owner.2 = some row → ∀ step ∈ steps,
      step.Enlarges row.positionId → d'.OpenLink row.positionId step.fill.fillId) ∧
    ∀ step ∈ steps, ∀ row, step.Ends row → step.EndsLinked row := by
  have hkept : KeepsFills steps d' := keepsFills_of_run h hrun
  refine ⟨fun owner => Set.ext (hkept.history owner), fun owner row held step hstep henlarges => ?_,
    hkept.ended⟩
  exact (hkept.enlarged step hstep row.positionId henlarges).2 owner row held rfl

end Runs

theorem noPositions_tradedDb : NoPositions tradedDb := ⟨rfl, rfl, rfl, rfl⟩

/-- After the purchase and the sale both fills are in the history of the user. -/
theorem history_is_kept_reversed : soldDb.history (1, 7) = {1, 2} := by
  rw [(history_is_kept noPositions_tradedDb fillRun_tradedFills).1 (1, 7)]
  ext fillId
  have hbuy : ¬(tradedFill .LONG 1 5).Ignored tradedDb := fun h => absurd h.1 (by decide)
  have hsell : ¬(tradedFill .SHORT 2 8).Ignored purchasedDb := fun h => absurd h.1 (by decide)
  constructor
  · rintro ⟨step, hstep, -, -, rfl⟩
    rcases List.mem_pair.1 hstep with rfl | rfl
    · exact .inl rfl
    · exact .inr rfl
  · rintro (rfl | rfl)
    · exact ⟨purchase, List.mem_cons_self, rfl, hbuy, rfl⟩
    · exact ⟨sale, List.mem_cons_of_mem _ (List.mem_singleton_self _), rfl, hsell, rfl⟩

end Projector
