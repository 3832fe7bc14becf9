import InfiniShell.Scrollback.CellTypes

namespace InfiniShell.Scrollback

open Collections Terminal

theorem Entry.Describes.unique {entry other : Entry} {sizings sizings' : BTreeMap Nat (List GraphemeRun)} {offset : Nat}
    {row : TextRow} (h : entry.Describes sizings offset row) (h' : other.Describes sizings' offset row) : entry = other := by
  obtain ⟨runs, hencodes, hsizing, -⟩ := h.runs
  obtain ⟨runs', hencodes', hsizing', -⟩ := h'.runs
  obtain rfl := Option.some.inj (hencodes.symm.trans hencodes')
  have hstart := h.start.trans h'.start.symm
  have hnewline := h.newline.trans h'.newline.symm
  have hleading := h.leading.trans h'.leading.symm
  cases entry
  cases other
  simp_all

theorem Index.Holds.unique {index other : Index} {front : Nat} {rows : List TextRow} (h : index.Holds front rows)
    (h' : other.Holds front rows) (i : Nat) : index.getEntry i = other.getEntry i ∧
      index.graphemeRunsForRow i = other.graphemeRunsForRow i := by
  have hlen := h.entries.length.trans h'.entries.length.symm
  unfold Index.graphemeRunsForRow Index.getEntry
  cases hentry : index.rows[i]? with
  | none =>
    rw [List.getElem?_eq_none_iff, hlen, ← List.getElem?_eq_none_iff] at hentry
    rw [hentry]
    exact ⟨rfl, rfl⟩
  | some entry =>
    obtain ⟨row, hrow, hdescribes⟩ := h.entries.get hentry
    obtain ⟨other', hother, hdescribes'⟩ := h'.getEntry hrow
    obtain ⟨runs, hencodes, -, hruns⟩ := Index.runsOfEntry_eq hdescribes
    obtain ⟨runs', hencodes', -, hruns'⟩ := Index.runsOfEntry_eq hdescribes'
    obtain rfl := Option.some.inj (hencodes.symm.trans hencodes')
    rw [Index.getEntry] at hother
    rw [hother]
    exact ⟨congrArg some (hdescribes.unique hdescribes'), hruns.trans hruns'.symm⟩

namespace FlatStorage

/-- What is read back from the storage, row by row. -/
def HasRows (s : FlatStorage) (rows : List TextRow) : Prop := ∀ i, s.storedRow i = rows[i]?

/-- A list of rows is all that the operations keep of the text. -/
theorem storage_refines_rows (columns : Nat) (maxRows : Option Nat) (steps : List Step) (s : FlatStorage)
    (hrun : (new columns maxRows).run steps = some s) (hspread : ∀ next ∈ steps, next.Spread) :
    ∃ held, HeldRows.Run maxRows ⟨columns, []⟩ steps held ∧ s.columns = held.columns ∧
      s.totalRows = held.rows.length ∧ s.HasRows held.rows := by
  obtain ⟨front, held, h, hcolumns, hfollows⟩ := (new_represents columns maxRows).follows hrun
  exact ⟨held, hfollows hspread, hcolumns, h.index.len, h.storedRow⟩

def wideRow : Row := ⟨[{ c := 'a' }, wideCell '中', wideSpacer], 3⟩

theorem storage_refines_rows_narrowed : ∃ s held,
    (new 3 (some 2)).run [.pushRows [wideRow], .setColumns 2] = some s ∧
      HeldRows.Run (some 2) ⟨3, []⟩ [.pushRows [wideRow], .setColumns 2] held ∧ s.columns = held.columns ∧
        s.totalRows = held.rows.length ∧ s.HasRows held.rows := by
  have hruns : ((new 3 (some 2)).run [.pushRows [wideRow], .setColumns 2]).isSome = true := by decide +kernel
  obtain ⟨s, hrun⟩ := Option.isSome_iff_exists.mp hruns
  have hrow : Row.Spread wideRow := by
    constructor
    · simp [wideRow, Spaced, wideCell, Cell.isEmpty, defaultChar]
    · simp [wideRow, wideCell, wideSpacer, Cell.isEmpty, defaultChar, Flags.marksContent]
  have hspread : ∀ next ∈ [Step.pushRows [wideRow], .setColumns 2], next.Spread := by
    simpa [Step.Spread] using hrow
  obtain ⟨held, hheld⟩ := storage_refines_rows 3 (some 2) _ s hrun hspread
  exact ⟨s, held, hrun, hheld⟩

variable {s t : FlatStorage} {front : Nat} {rows : List TextRow}

theorem Represents.setColumns_ne (h : s.Represents front rows) {b : Nat} (hb : b ≠ s.columns)
    (ht : s.setColumns b = some t) : t.Represents front (rewrap b (textOf rows)) ∧ t.columns = b ∧ t.content = s.content := by
  obtain ⟨hrows, hcolumns, -, hcontent⟩ := h.setColumns ht
  rw [if_neg (Ne.symm hb)] at hrows
  exact ⟨hrows, hcolumns, hcontent⟩

end FlatStorage

end InfiniShell.Scrollback
