import Mathlib.Data.List.Basic

namespace InfiniShell.Terminal

inductive NamedColor where
  | black | red | green | yellow | blue | magenta | cyan | white
  | brightBlack | brightRed | brightGreen | brightYellow | brightBlue | brightMagenta | brightCyan | brightWhite
  | foreground | background | cursor
  | dimBlack | dimRed | dimGreen | dimYellow | dimBlue | dimMagenta | dimCyan | dimWhite
  | brightForeground | dimForeground
deriving DecidableEq

inductive Color where
  | named (color : NamedColor)
  | spec (r g b a : UInt8)
  | indexed (index : UInt8)
deriving DecidableEq

/-- The bits of `Flags`. -/
structure Flags where
  inverse : Bool := false
  bold : Bool := false
  italic : Bool := false
  underline : Bool := false
  wrapline : Bool := false
  wideChar : Bool := false
  wideCharSpacer : Bool := false
  dim : Bool := false
  hidden : Bool := false
  strikeout : Bool := false
  leadingWideCharSpacer : Bool := false
  doubleUnderline : Bool := false
  hasCursor : Bool := false
deriving DecidableEq

structure EndOfPromptMarker where
  hasExtraTrailingNewline : Bool
deriving DecidableEq

structure CellExtra where
  cellWithZeroWidth : Option String := none
  endOfPrompt : Option EndOfPromptMarker := none
  hyperlinkId : Option Nat := none
deriving DecidableEq

def defaultChar : Char := '\x00'

structure Cell where
  c : Char := defaultChar
  fg : Color := .named .foreground
  bg : Color := .named .background
  flags : Flags := {}
  extra : Option CellExtra := none
deriving DecidableEq

namespace Cell

def discriminant (cell : Cell) : Color := cell.bg

def ofColor (color : Color) : Cell := { bg := color }

def reset (_cell template : Cell) : Cell := { bg := template.bg }

end Cell

inductive CharOrStr where
  | char (c : Char)
  | str (s : String)

def maxGraphemeBytes : Nat := 256

namespace Cell

def rawContent (cell : Cell) : CharOrStr :=
  match cell.extra.bind CellExtra.cellWithZeroWidth with
  | some content => .str content
  | none => .char cell.c

/-- Whether the character was appended. -/
def pushZerowidth (cell : Cell) (c : Char) : Cell × Bool :=
  let base := if cell.c = defaultChar then ' ' else cell.c
  let extra := cell.extra.getD {}
  match extra.cellWithZeroWidth with
  | some content =>
    if content.utf8ByteSize + c.utf8Size > maxGraphemeBytes then
      ({ cell with c := base, extra := some extra }, false)
    else
      ({ cell with c := base, extra := some { extra with cellWithZeroWidth := some (content.push c) } }, true)
  | none =>
    ({ cell with
        c := base
        extra := some { extra with cellWithZeroWidth := some (String.ofList [base, c]) } }, true)

/-- The cell without the last zero-width character, and this character. -/
def popZerowidth (cell : Cell) : Cell × Option Char :=
  match cell.extra with
  | none => (cell, none)
  | some extra =>
    match extra.cellWithZeroWidth with
    | none => (cell, none)
    | some content =>
      if content.utf8ByteSize ≤ cell.c.utf8Size then (cell, none)
      else
        let rest := String.ofList content.toList.dropLast
        let extra := { extra with
          cellWithZeroWidth := if rest.utf8ByteSize = cell.c.utf8Size then none else some rest }
        ({ cell with extra := if extra = {} then none else some extra }, content.toList.getLast?)

def hyperlinkId (cell : Cell) : Option Nat := cell.extra.bind CellExtra.hyperlinkId

def setHyperlinkId (cell : Cell) (id : Option Nat) : Cell :=
  match id, cell.extra with
  | some id, extra => { cell with extra := some { extra.getD {} with hyperlinkId := some id } }
  | none, some extra => { cell with extra := some { extra with hyperlinkId := none } }
  | none, none => cell

/-- Only the end-of-prompt marker survives. -/
def dropExtra (cell : Cell) : Cell :=
  { cell with
    extra := (cell.extra.bind CellExtra.endOfPrompt).map fun marker => { endOfPrompt := some marker } }

@[simp] theorem flags_pushZerowidth (cell : Cell) (c : Char) : (cell.pushZerowidth c).1.flags = cell.flags := by
  unfold pushZerowidth
  simp only
  split
  next => split <;> rfl
  next => rfl

@[simp] theorem flags_popZerowidth (cell : Cell) : cell.popZerowidth.1.flags = cell.flags := by
  unfold popZerowidth
  split
  next => rfl
  next =>
    split
    next => rfl
    next => split <;> rfl

@[simp] theorem flags_setHyperlinkId (cell : Cell) (id : Option Nat) :
    (cell.setHyperlinkId id).flags = cell.flags := by
  unfold setHyperlinkId
  split <;> rfl

end Cell

structure Row where
  inner : List Cell
  /-- The cells from here on were not modified since the last reset. -/
  occ : Nat
deriving DecidableEq

namespace Row

def new (columns : Nat) : Row := ⟨List.replicate columns {}, 0⟩

/-- `none` is a panic, also the debug assertion that the row has a cell. -/
def reset (row : Row) (template : Cell) : Option Row := do
  let last ← row.inner.getLast?
  let occ := if last.discriminant ≠ template.discriminant then row.inner.length else row.occ
  if occ ≤ row.inner.length then
    some ⟨(row.inner.take occ).map (·.reset template) ++ row.inner.drop occ, 0⟩
  else none

def blank (columns : Nat) (template : Cell) : Row := ⟨List.replicate columns (Cell.ofColor template.bg), 0⟩

/-- The cells that count as unmodified are alike. -/
structure Sound (columns : Nat) (row : Row) : Prop where
  length : row.inner.length = columns
  occ_le : row.occ ≤ columns
  clean : ∃ color, ∀ cell ∈ row.inner.drop row.occ, cell = Cell.ofColor color

theorem new_sound (columns : Nat) : (new columns).Sound columns where
  length := List.length_replicate
  occ_le := Nat.zero_le _
  clean := ⟨.named .background, fun _ hcell => List.eq_of_mem_replicate hcell⟩

theorem blank_sound (columns : Nat) (template : Cell) : (blank columns template).Sound columns where
  length := List.length_replicate
  occ_le := Nat.zero_le _
  clean := ⟨template.bg, fun _ hcell => List.eq_of_mem_replicate hcell⟩

theorem Sound.reset {columns : Nat} {row : Row} (h : row.Sound columns) (hpos : 0 < columns) (template : Cell) :
    row.reset template = some (blank columns template) := by
  obtain ⟨color, hclean⟩ := h.clean
  have hne : row.inner ≠ [] := by
    intro hnil
    have hlen := h.length
    rw [hnil] at hlen
    exact absurd hlen (Nat.ne_of_lt hpos)
  have hocc : row.occ ≤ row.inner.length := h.length ▸ h.occ_le
  rw [Row.reset, List.getLast?_eq_some_getLast hne]
  simp only [Option.bind_eq_bind, Option.bind_some]
  by_cases hcolor : (row.inner.getLast hne).discriminant ≠ template.discriminant
  · rw [if_pos hcolor, if_pos (Nat.le_refl _), List.take_length, List.drop_length, List.append_nil]
    congr 2
    exact List.eq_replicate_iff.mpr ⟨by rw [List.length_map, h.length], by simp [Cell.reset, Cell.ofColor]⟩
  · rw [if_neg hcolor, if_pos hocc]
    have hrest : ∀ cell ∈ row.inner.drop row.occ, cell = Cell.ofColor template.bg := by
      intro cell hcell
      have hlast : row.inner.getLast hne ∈ row.inner.drop row.occ := by
        have hdrop : row.inner.drop row.occ ≠ [] := List.ne_nil_of_mem hcell
        rw [← List.getLast_drop hdrop]
        exact List.getLast_mem hdrop
      have hbg : color = template.bg := by
        have hdiscriminant := not_not.mp hcolor
        rw [hclean _ hlast] at hdiscriminant
        exact hdiscriminant
      rw [hclean cell hcell, hbg]
    congr 2
    apply List.eq_replicate_iff.mpr
    refine ⟨by rw [List.length_append, List.length_map, List.length_take, List.length_drop, h.length]; omega, ?_⟩
    intro cell hcell
    cases List.mem_append.mp hcell with
    | inl hcell =>
      obtain ⟨cell', -, rfl⟩ := List.mem_map.mp hcell
      rfl
    | inr hcell => exact hrest cell hcell

end Row

end InfiniShell.Terminal
