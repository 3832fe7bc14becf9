import InfiniShell.Collections.Utf8Text
import InfiniShell.Terminal.RowEditing
import InfiniShell.Collections.BTreeMap

namespace InfiniShell.Terminal

/-- Whether any of the flags of an empty cell's exceptions is set. -/
def Flags.marksContent (flags : Flags) : Bool :=
  flags.inverse || flags.underline || flags.doubleUnderline || flags.strikeout || flags.wrapline
    || flags.wideCharSpacer || flags.leadingWideCharSpacer || flags.hasCursor

def CharOrStr.chars : CharOrStr → List Char
  | .char c => [c]
  | .str s => s.toList

namespace Cell

def isEmpty (cell : Cell) : Bool :=
  cell.c = defaultChar && cell.bg = .named .background && cell.fg = .named .foreground && !cell.flags.marksContent

def endOfPromptMarker (cell : Cell) : Option EndOfPromptMarker := cell.extra.bind CellExtra.endOfPrompt

def markEndOfPrompt (cell : Cell) (hasExtraTrailingNewline : Bool) : Cell :=
  { cell with extra := some { cell.extra.getD {} with endOfPrompt := some ⟨hasExtraTrailingNewline⟩ } }

end Cell

inductive CellType where
  | regularChar | wideChar | wideCharSpacer | leadingWideCharSpacer
deriving DecidableEq

def CellType.ofCell (cell : Cell) : CellType :=
  if !(cell.flags.wideChar || cell.flags.wideCharSpacer || cell.flags.leadingWideCharSpacer) then .regularChar
  else if cell.flags.wideChar then .wideChar
  else if cell.flags.wideCharSpacer then .wideCharSpacer
  else .leadingWideCharSpacer

end InfiniShell.Terminal

namespace InfiniShell.Scrollback

open Collections Terminal

/-- The size of a grapheme; it has at least one byte. -/
structure GraphemeInfo where
  cellWidth : Nat
  utf8Bytes : Nat
  pos : 0 < utf8Bytes
deriving DecidableEq

structure Grapheme where
  info : GraphemeInfo
  content : List Char
deriving DecidableEq

namespace Grapheme

def emptyCell : Grapheme := ⟨⟨1, 1, by decide⟩, [defaultChar]⟩

def newline : Grapheme := ⟨⟨0, 1, by decide⟩, ['\n']⟩

/-- `none` is a panic: the content does not fit in a `u16` or is empty. -/
def newFromCell (cell : Cell) : Option Grapheme :=
  let cellWidth := if cell.flags.wideChar then 2 else 1
  let content := cell.rawContent.chars
  if h : 0 < byteLen content ∧ byteLen content < 65536 then some ⟨⟨cellWidth, byteLen content, h.1⟩, content⟩ else none

def newFromStrAndInfo (grapheme : List Char) (info : GraphemeInfo) : Grapheme := ⟨info, grapheme⟩

def sizingInfo (g : Grapheme) : GraphemeInfo := g.info

def cellWidth (g : Grapheme) : Nat := g.info.cellWidth

def len (g : Grapheme) : Nat := g.info.utf8Bytes

def startsNewRow (g : Grapheme) : Bool := g.content = ['\n']

structure Sized (g : Grapheme) : Prop where
  bytes : byteLen g.content = g.len
  width : g.cellWidth = 1 ∨ g.cellWidth = 2

theorem emptyCell_sized : emptyCell.Sized := ⟨by decide, .inl rfl⟩

variable {cell : Cell} {g : Grapheme} (h : newFromCell cell = some g)
include h

theorem newFromCell_content : g.content = cell.rawContent.chars := by
  unfold newFromCell at h
  simp only at h
  split at h
  next => rw [← Option.some.inj h]
  next => cases h

theorem newFromCell_sized : g.Sized := by
  unfold newFromCell at h
  simp only at h
  split at h
  next =>
    obtain rfl := Option.some.inj h
    refine ⟨rfl, ?_⟩
    cases hwide : cell.flags.wideChar
    · exact .inl (by simp [cellWidth])
    · exact .inr (by simp [cellWidth])
  next => cases h

theorem newFromCell_len : g.len = byteLen cell.rawContent.chars := by
  rw [← (newFromCell_sized h).bytes, newFromCell_content h]

end Grapheme

structure BgAndStyle where
  bg : Color := .named .background
  flags : Flags := {}
deriving DecidableEq

def styleMask (flags : Flags) : Flags :=
  { inverse := flags.inverse, bold := flags.bold, italic := flags.italic, underline := flags.underline
    doubleUnderline := flags.doubleUnderline, dim := flags.dim, hidden := flags.hidden, strikeout := flags.strikeout }

def BgAndStyle.ofCell (cell : Cell) : BgAndStyle := ⟨cell.bg, styleMask cell.flags⟩

structure Chunk where
  content : List Char
  startOffset : Nat

namespace Chunk

def chunkSize : Nat := 1024

def new (startOffset : Nat) : Chunk := ⟨[], startOffset⟩

def len (chunk : Chunk) : Nat := byteLen chunk.content

def endOffset (chunk : Chunk) : Nat := chunk.startOffset + chunk.len

def push (chunk : Chunk) (content : List Char) : Chunk := { chunk with content := chunk.content ++ content }

/-- `none` also where the rest would not be text. -/
def truncate (chunk : Chunk) (offset : Nat) : Option Chunk :=
  if chunk.startOffset ≤ offset then
    (takeBytes chunk.content (offset - chunk.startOffset)).map fun content => { chunk with content }
  else none

def slice (chunk : Chunk) (start stop : Nat) : Option (List Char) := do
  takeBytes (← dropBytes chunk.content start) (stop - start)

end Chunk

/-- The text in chunks; each filled one is keyed by the offset of its last byte. -/
structure Content where
  filledChunks : BTreeMap Nat Chunk
  activeChunk : Chunk

namespace Content

def new : Content := ⟨.empty, .new 0⟩

/-- `none` is a panic. -/
def pushGrapheme (c : Content) (g : Grapheme) : Option Content :=
  if g.len < Chunk.chunkSize then
    let c := if c.activeChunk.len + g.len > Chunk.chunkSize then
        { filledChunks := c.filledChunks.insert (c.activeChunk.endOffset - 1) c.activeChunk
          activeChunk := .new c.activeChunk.endOffset : Content }
      else c
    some { c with activeChunk := c.activeChunk.push g.content }
  else none

def truncate (c : Content) (newLen : Nat) : Option Content := do
  let truncatedChunks := c.filledChunks.atLeast newLen
  let activeChunk := match truncatedChunks.first? with
    | some (_, chunk) => chunk
    | none => c.activeChunk
  some { filledChunks := c.filledChunks.below newLen, activeChunk := ← activeChunk.truncate newLen }

def truncateFront (c : Content) (newStartOffset : Nat) : Content :=
  { c with filledChunks := c.filledChunks.atLeast newStartOffset }

def endOffset (c : Content) : Nat := c.activeChunk.endOffset

def chunkAt (c : Content) (offset : Nat) : Chunk :=
  match (c.filledChunks.atLeast offset).first? with
  | some (_, chunk) => chunk
  | none => c.activeChunk

/-- The text of a range, `none` where the chunk does not hold it. -/
def get (c : Content) (start stop : Nat) : Option (List Char) :=
  let chunk := c.chunkAt start
  if chunk.startOffset ≤ start then chunk.slice (start - chunk.startOffset) (stop - chunk.startOffset) else none

/-- The chunks follow each other, and are keyed by their ends. -/
structure Chained (c : Content) : Prop where
  key : ∀ e ∈ c.filledChunks.entries, e.1 + 1 = e.2.endOffset
  order : ∀ e ∈ c.filledChunks.entries, ∀ d ∈ c.filledChunks.entries, e.1 < d.1 → e.1 < d.2.startOffset
  active : ∀ e ∈ c.filledChunks.entries, e.1 < c.activeChunk.startOffset

def HoldsAt (c : Content) (offset : Nat) (text : List Char) : Prop :=
  ∃ x y, (c.chunkAt offset).content = x ++ text ++ y ∧ (c.chunkAt offset).startOffset + byteLen x = offset

variable {c : Content} {offset : Nat} {text : List Char}

theorem HoldsAt.get (h : c.HoldsAt offset text) : c.get offset (offset + byteLen text) = some text := by
  obtain ⟨x, y, hcontent, hoffset⟩ := h
  have hstart : offset - (c.chunkAt offset).startOffset = byteLen x := by omega
  have hstop : offset + byteLen text - (c.chunkAt offset).startOffset - byteLen x = byteLen text := by omega
  rw [Content.get, if_pos (by omega), Chunk.slice, hstart, hcontent, List.append_assoc, dropBytes_append]
  simp only [Option.bind_eq_bind, Option.bind_some]
  rw [hstop, takeBytes_append]

theorem new_chained : new.Chained := ⟨nofun, nofun, nofun⟩

theorem chunkAt_of_filled {k : Nat} {chunk : Chunk} (h : (c.filledChunks.atLeast offset).first? = some (k, chunk)) :
    c.chunkAt offset = chunk := by
  rw [chunkAt, h]

theorem chunkAt_of_none (h : (c.filledChunks.atLeast offset).first? = none) : c.chunkAt offset = c.activeChunk := by
  rw [chunkAt, h]

theorem Chained.key_lt_end (h : c.Chained) : ∀ e ∈ c.filledChunks.entries, e.1 < c.endOffset := by
  intro e he
  exact Nat.lt_of_lt_of_le (h.active e he) (Nat.le_add_right _ _)

section Push

def close (c : Content) : Content :=
  { filledChunks := c.filledChunks.insert (c.activeChunk.endOffset - 1) c.activeChunk
    activeChunk := .new c.activeChunk.endOffset }

theorem Chained.close_entries (h : c.Chained) (hpos : 0 < c.activeChunk.len) :
    c.close.filledChunks.entries = c.filledChunks.entries ++ [(c.activeChunk.endOffset - 1, c.activeChunk)] := by
  apply BTreeMap.insert_entries_of_lt
  intro e he
  have hlt := h.active e he
  rw [Chunk.endOffset]
  omega

theorem Chained.close (h : c.Chained) (hpos : 0 < c.activeChunk.len) : c.close.Chained := by
  have hend : c.activeChunk.endOffset = c.activeChunk.startOffset + c.activeChunk.len := rfl
  have hentries := h.close_entries hpos
  refine ⟨?_, ?_, ?_⟩
  · intro e he
    rw [hentries, List.mem_append, List.mem_singleton] at he
    cases he with
    | inl he => exact h.key e he
    | inr he =>
      rw [he]
      simp only
      omega
  · intro e he d hd hlt
    rw [hentries, List.mem_append, List.mem_singleton] at he hd
    cases he with
    | inl he =>
      cases hd with
      | inl hd => exact h.order e he d hd hlt
      | inr hd =>
        rw [hd]
        exact h.active e he
    | inr he =>
      cases hd with
      | inl hd =>
        have hactive := h.active d hd
        rw [he] at hlt
        simp only at hlt
        omega
      | inr hd =>
        rw [he, hd] at hlt
        exact absurd hlt (Nat.lt_irrefl _)
  · intro e he
    rw [hentries, List.mem_append, List.mem_singleton] at he
    change e.1 < c.activeChunk.endOffset
    cases he with
    | inl he =>
      have hactive := h.active e he
      omega
    | inr he =>
      rw [he]
      simp only
      omega

theorem Chained.close_chunkAt (h : c.Chained) (hpos : 0 < c.activeChunk.len) (hlt : offset < c.endOffset) :
    c.close.chunkAt offset = c.chunkAt offset := by
  have hend : offset ≤ c.activeChunk.endOffset - 1 := Nat.le_sub_one_of_lt hlt
  rw [chunkAt, chunkAt, BTreeMap.first?_atLeast, BTreeMap.first?_atLeast, h.close_entries hpos, List.find?_append]
  cases c.filledChunks.entries.find? (fun e => offset ≤ e.1) with
  | some e => rfl
  | none => simp [hend]

def pushText (c : Content) (text : List Char) : Content := { c with activeChunk := c.activeChunk.push text }

theorem Chained.pushText (h : c.Chained) (text : List Char) : (c.pushText text).Chained := ⟨h.key, h.order, h.active⟩

theorem endOffset_pushText (c : Content) (text : List Char) :
    (c.pushText text).endOffset = c.endOffset + byteLen text := by
  simp [endOffset, Content.pushText, Chunk.push, Chunk.endOffset, Chunk.len, Nat.add_assoc]

theorem HoldsAt.pushText (h : c.HoldsAt offset text) (more : List Char) : (c.pushText more).HoldsAt offset text := by
  obtain ⟨x, y, hcontent, hoffset⟩ := h
  cases hfirst : (c.filledChunks.atLeast offset).first? with
  | some e =>
    have hat : (c.pushText more).chunkAt offset = c.chunkAt offset := by
      rw [chunkAt_of_filled hfirst]
      exact chunkAt_of_filled (c := c.pushText more) hfirst
    rw [HoldsAt, hat]
    exact ⟨x, y, hcontent, hoffset⟩
  | none =>
    have hat : (c.pushText more).chunkAt offset = c.activeChunk.push more :=
      chunkAt_of_none (c := c.pushText more) hfirst
    rw [chunkAt_of_none hfirst] at hcontent hoffset
    rw [HoldsAt, hat]
    exact ⟨x, y ++ more, by simp [Chunk.push, hcontent], hoffset⟩

theorem Chained.holdsAt_end (h : c.Chained) (text : List Char) : (c.pushText text).HoldsAt c.endOffset text := by
  have hnone : ((c.pushText text).filledChunks.atLeast c.endOffset).first? = none :=
    BTreeMap.first?_atLeast_eq_none.mpr h.key_lt_end
  rw [HoldsAt, chunkAt_of_none hnone]
  exact ⟨c.activeChunk.content, [], by simp [Content.pushText, Chunk.push], rfl⟩

variable {next : Content} {g : Grapheme}

theorem pushGrapheme_cases (h : c.pushGrapheme g = some next) :
    next = c.pushText g.content ∨ 0 < c.activeChunk.len ∧ next = c.close.pushText g.content := by
  unfold pushGrapheme at h
  split at h
  next hlt =>
    obtain rfl := Option.some.inj h
    split
    next hfull =>
      right
      refine ⟨?_, rfl⟩
      have hsize : Chunk.chunkSize = 1024 := rfl
      omega
    next => exact .inl rfl
  next => cases h

theorem pushGrapheme_endOffset (h : c.pushGrapheme g = some next) :
    next.endOffset = c.endOffset + byteLen g.content := by
  cases pushGrapheme_cases h with
  | inl hnext => rw [hnext, endOffset_pushText]
  | inr hnext =>
    rw [hnext.2, endOffset_pushText]
    rfl

theorem Chained.pushGrapheme (h : c.Chained) (hpush : c.pushGrapheme g = some next) :
    next.Chained ∧ next.endOffset = c.endOffset + byteLen g.content ∧ next.HoldsAt c.endOffset g.content ∧
      ∀ offset text, offset < c.endOffset → c.HoldsAt offset text → next.HoldsAt offset text := by
  cases pushGrapheme_cases hpush with
  | inl hnext =>
    rw [hnext]
    exact ⟨h.pushText _, endOffset_pushText _ _, h.holdsAt_end _, fun _ _ _ hold => hold.pushText _⟩
  | inr hfull =>
    obtain ⟨hpos, hnext⟩ := hfull
    have hclosed := h.close hpos
    have hend : c.close.endOffset = c.endOffset := rfl
    rw [hnext]
    refine ⟨hclosed.pushText _, ?_, hend ▸ hclosed.holdsAt_end _, ?_⟩
    · rw [endOffset_pushText, hend]
    · intro offset text hlt hold
      apply HoldsAt.pushText
      rw [HoldsAt, h.close_chunkAt hpos hlt]
      exact hold

end Push

section Truncate

def CutAt (c : Content) (offset : Nat) : Prop :=
  ∃ x y, (c.chunkAt offset).content = x ++ y ∧ (c.chunkAt offset).startOffset + byteLen x = offset

theorem HoldsAt.cutAt (h : c.HoldsAt offset text) : c.CutAt offset := by
  obtain ⟨x, y, hcontent, hoffset⟩ := h
  exact ⟨x, text ++ y, by rw [hcontent, List.append_assoc], hoffset⟩

theorem Chained.cutAt_end (h : c.Chained) : c.CutAt c.endOffset := by
  rw [CutAt, chunkAt_of_none (BTreeMap.first?_atLeast_eq_none.mpr h.key_lt_end)]
  exact ⟨c.activeChunk.content, [], (List.append_nil _).symm, rfl⟩

theorem truncate_eq (c : Content) (n : Nat) : c.truncate n = (c.chunkAt n).truncate n >>= fun chunk =>
    some { filledChunks := c.filledChunks.below n, activeChunk := chunk } := rfl

variable {n : Nat}

theorem truncate_endOffset {next : Content} (h : c.truncate n = some next) : next.endOffset = n := by
  rw [truncate_eq, Option.bind_eq_bind, Option.bind_eq_some_iff] at h
  obtain ⟨chunk, hchunk, hnext⟩ := h
  obtain rfl := Option.some.inj hnext
  unfold Chunk.truncate at hchunk
  split at hchunk
  next hle =>
    obtain ⟨content, htake, rfl⟩ := Option.map_eq_some_iff.mp hchunk
    have hlen := takeBytes_byteLen htake
    change (c.chunkAt n).startOffset + byteLen content = n
    omega
  next => cases hchunk

theorem CutAt.truncate (h : c.CutAt n) : ∃ x y, (c.chunkAt n).content = x ++ y ∧
    (c.chunkAt n).startOffset + byteLen x = n ∧
    c.truncate n = some { filledChunks := c.filledChunks.below n, activeChunk := { c.chunkAt n with content := x } } := by
  obtain ⟨x, y, hcontent, hoffset⟩ := h
  refine ⟨x, y, hcontent, hoffset, ?_⟩
  have hlen : n - (c.chunkAt n).startOffset = byteLen x := by omega
  rw [truncate_eq, Chunk.truncate, if_pos (by omega), hlen, hcontent, takeBytes_append]
  rfl

theorem Chained.truncate (h : c.Chained) (hcut : c.CutAt n) : ∃ next, c.truncate n = some next ∧
    next.Chained ∧ next.endOffset = n ∧
    ∀ offset text, 0 < byteLen text → offset + byteLen text ≤ n → c.HoldsAt offset text → next.HoldsAt offset text := by
  obtain ⟨x, y, hcontent, hoffset, htruncate⟩ := hcut.truncate
  refine ⟨_, htruncate, ⟨?_, ?_, ?_⟩, hoffset, ?_⟩
  · intro e he
    exact h.key e (BTreeMap.mem_below.mp he).1
  · intro e he d hd hlt
    exact h.order e (BTreeMap.mem_below.mp he).1 d (BTreeMap.mem_below.mp hd).1 hlt
  · intro e he
    obtain ⟨he, hlt⟩ := BTreeMap.mem_below.mp he
    change e.1 < (c.chunkAt n).startOffset
    cases hfirst : (c.filledChunks.atLeast n).first? with
    | some d =>
      obtain ⟨hd, hle⟩ := BTreeMap.first?_atLeast_mem hfirst
      rw [chunkAt_of_filled hfirst]
      exact h.order e he d hd (Nat.lt_of_lt_of_le hlt hle)
    | none =>
      rw [chunkAt_of_none hfirst]
      exact h.active e he
  · intro offset text hpos hle hold
    obtain ⟨x', y', hcontent', hoffset'⟩ := hold
    have hsplit := c.filledChunks.first?_atLeast_of_le (Nat.le_trans (Nat.le_add_right _ _) hle)
    cases hbelow : ((c.filledChunks.below n).atLeast offset).first? with
    | some e =>
      rw [hbelow, Option.some_or] at hsplit
      rw [chunkAt_of_filled hsplit] at hcontent' hoffset'
      rw [HoldsAt, chunkAt, hbelow]
      exact ⟨x', y', hcontent', hoffset'⟩
    | none =>
      -- The text stands in the chunk that is cut.
      rw [hbelow, Option.none_or] at hsplit
      have hat : c.chunkAt offset = c.chunkAt n := by rw [chunkAt, chunkAt, hsplit]
      rw [hat] at hcontent' hoffset'
      have hbytes : byteLen (x' ++ text) ≤ byteLen x := by
        rw [byteLen_append]
        omega
      obtain ⟨t, ht⟩ := prefix_of_byteLen_le (hcontent'.symm.trans hcontent) hbytes
      rw [HoldsAt, chunkAt, hbelow]
      exact ⟨x', t, ht, hoffset'⟩

end Truncate

theorem Chained.truncateFront (h : c.Chained) (n : Nat) : (c.truncateFront n).Chained where
  key := fun e he => h.key e (BTreeMap.mem_atLeast.mp he).1
  order := fun e he d hd => h.order e (BTreeMap.mem_atLeast.mp he).1 d (BTreeMap.mem_atLeast.mp hd).1
  active := fun e he => h.active e (BTreeMap.mem_atLeast.mp he).1

theorem HoldsAt.truncateFront {n : Nat} (h : c.HoldsAt offset text) (hle : n ≤ offset) :
    (c.truncateFront n).HoldsAt offset text := by
  have hat : (c.truncateFront n).chunkAt offset = c.chunkAt offset := by
    have hmap : (c.truncateFront n).filledChunks.atLeast offset = c.filledChunks.atLeast offset := by
      rw [Content.truncateFront, BTreeMap.atLeast_atLeast, Nat.max_eq_right hle]
    rw [chunkAt, chunkAt, hmap]
    rfl
  rw [HoldsAt, hat]
  exact h

@[simp] theorem endOffset_truncateFront (c : Content) (n : Nat) : (c.truncateFront n).endOffset = c.endOffset := rfl

end Content

end InfiniShell.Scrollback
