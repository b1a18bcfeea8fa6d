import Chiptune.Assembly.Print
import Mathlib.Data.List.Basic
import Mathlib.Data.Nat.Basic

/-!
# Reading an assembly file back

An assembler reads a file line by line.  A line that starts with a tab is a directive: bytes as
hexadecimal numbers between commas, words as symbols between commas, or an alignment.  Other lines
define a label, are a comment or are empty.  What stands under a label up to the next one is its
block.

The file of an output is read back as the blocks of the output: the table of the channels, the bytes
of each channel, cut at its loop point, and for each effect the table of its macros and their parts.
A part is its number of elements and then the elements, whatever runs of bytes and symbols it is
made of.

A symbol of a macro is any text, and it has a directive of its own.  If there are commas in it, the
directive has several operands, which with commas between them are the symbol again.

## Main definitions

* `Text.operands` — the operands that a text is read as.
* `Dialect.readLine?` — what a line says.
* `Dialect.assemble?` — the blocks of a file.
* `Output.blocks` — the blocks that an output has, without any text.
* `Dialect.Fills`, `Dialect.Writes` — lines that go on with a block, and lines that are blocks.

## Main results

* `Dialect.cellLines_fills` — the elements of a part are read back in order.
* `Output.asmLines_writes` — the lines of the file are the blocks of the output.
* `assemble_asm` — nothing is lost in the file.
-/

namespace Chiptune

/-! ### Assembly files -/

/-- Something that has a place in memory. -/
inductive Item where
  /-- A byte. -/
  | byte (value : UInt8)
  /-- The words of a directive, one for each operand. -/
  | words (operands : List String)
  deriving DecidableEq, Repr

/-- A label and what stands under it. -/
structure Block where
  /-- The label. -/
  label : String
  /-- The bytes and the words. -/
  items : List Item
  deriving DecidableEq, Repr

/-- What a line of a file says. -/
inductive Statement where
  /-- Nothing that has a place in memory. -/
  | nothing
  /-- A label is here. -/
  | label (name : String)
  /-- Bytes follow. -/
  | bytes (values : List UInt8)
  /-- Words follow, one for each operand. -/
  | words (operands : List String)
  deriving DecidableEq, Repr

namespace Text

/-- The value of a hexadecimal digit. -/
def digit? (c : Char) : Option Nat :=
  if '0' ≤ c ∧ c ≤ '9' then some (c.toNat - 48)
  else if 'A' ≤ c ∧ c ≤ 'F' then some (c.toNat - 55)
  else none

/-- The byte with two given digits. -/
def byte? (high low : Char) : Option UInt8 := do
  let h ← digit? high
  let l ← digit? low
  return .ofNat (16 * h + l)

/-- The lines of a text: what stands between its line feeds. -/
def lines (text : String) : List (List Char) := text.toList.splitOn '\n'

/-- The operands in a text: what stands between its commas. -/
def operands (text : String) : List String := (text.toList.splitOn ',').map String.ofList

end Text

namespace Dialect

/-- The byte that a hexadecimal number is. -/
def readByte? : Dialect → List Char → Option UInt8
  | wlaDx, ['$', high, low] => Text.byte? high low
  | gnuAs, ['0', 'x', high, low] => Text.byte? high low
  | _, _ => none

/-- What a directive says: its name, and after a blank its operands, with commas between them. -/
def readDirective? (d : Dialect) (text : List Char) : Option Statement :=
  let name := text.takeWhile (· != ' ')
  let operands := ((text.dropWhile (· != ' ')).drop 1).splitOn ','
  if name = d.byteDirective.toList then .bytes <$> operands.mapM d.readByte?
  else if name = d.wordDirective.toList then some (.words (operands.map String.ofList))
  else if d.wordAlignment?.map String.toList = some name then some .nothing
  else none

/-- What a line says, unless the assembler cannot read it. -/
def readLine? (d : Dialect) : List Char → Option Statement
  | [] => some .nothing
  | '\t' :: text => d.readDirective? text
  | c :: text =>
    if d.comment.toList = [c] then some .nothing
    else if (c :: text).getLast? = some ':' then
      some (.label (String.ofList (c :: text).dropLast))
    else none

end Dialect

/-- What a line adds in front of what follows it: what comes before the next label, and the blocks
from there on. -/
def Statement.add : Statement → List Item × List Block → List Item × List Block
  | nothing, p => p
  | label name, (items, blocks) => ([], ⟨name, items⟩ :: blocks)
  | bytes values, (items, blocks) => (values.map .byte ++ items, blocks)
  | words operands, (items, blocks) => (.words operands :: items, blocks)

namespace Dialect

/-- What stands in some lines before the first label, and the blocks from there on. -/
def readLines? (d : Dialect) : List (List Char) → Option (List Item × List Block)
  | [] => some ([], [])
  | line :: lines => do
    let p ← d.readLines? lines
    let s ← d.readLine? line
    return s.add p

/-- The blocks of a file.  Nothing may stand before the first label. -/
def assemble? (d : Dialect) (text : String) : Option (List Block) := do
  let (items, blocks) ← d.readLines? (Text.lines text)
  if items.isEmpty then some blocks else none

end Dialect

/-! ### The blocks of an output -/

/-- The block of a table of words, eight in each line. -/
def Block.ofWords (label : String) (words : List String) : Block :=
  ⟨label,
    (chunks wordsPerLine words).map fun ws => .words (Text.operands (String.intercalate ", " ws))⟩

/-- The blocks of a channel: its bytes, cut at the loop point if it has one. -/
def ChannelStream.blocks (ch : ChannelStream) : List Block :=
  match ch.loopOffset with
  | none => [⟨channelLabel ch.name, ch.data.map .byte⟩]
  | some offset =>
    [⟨channelLabel ch.name, (ch.data.take offset).map .byte⟩,
      ⟨loopLabel (channelLabel ch.name), (ch.data.drop offset).map .byte⟩]

/-- An element of a table in a file.  A symbol has the words of a directive, of which there are
several if it has commas. -/
def Item.ofCell : Cell → Item
  | .byte value => .byte value
  | .symbol name => .words (Text.operands name)

/-- The number of some elements, and then the elements. -/
def Cell.counted (cells : List Cell) : List Item :=
  .byte (.ofNat cells.length) :: cells.map .ofCell

/-- The blocks of a macro: one for each of its parts. -/
def TableEntry.blocks (effect : Effect) (e : TableEntry) : List Block :=
  [⟨macroLabel effect e.key, Cell.counted e.main⟩,
    ⟨loopLabel (macroLabel effect e.key), Cell.counted e.loop⟩]

/-- The label of the table of an effect. -/
def tableLabel (effect : Effect) : String := "mml_" ++ effect.label ++ "_table"

/-- The labels in the table of an effect: two for each macro. -/
def MacroTable.pointers (t : MacroTable) : List String :=
  t.entries.flatMap fun e => [macroLabel t.effect e.key, loopLabel (macroLabel t.effect e.key)]

/-- The blocks of a table and of its macros. -/
def MacroTable.blocks (t : MacroTable) : List Block :=
  .ofWords (tableLabel t.effect) t.pointers :: t.entries.flatMap (·.blocks t.effect)

/-- The blocks of an output, whatever assembler it is written for. -/
def Output.blocks (o : Output) : List Block :=
  .ofWords "mml_channel_table" (o.channels.map fun ch => channelLabel ch.name) ::
    o.channels.flatMap (·.blocks) ++ o.tables.flatMap (·.blocks)

/-- Text that stays on its line. -/
def Text.Unbroken (s : String) : Prop := '\n' ∉ s.toList

instance (s : String) : Decidable (Text.Unbroken s) := inferInstanceAs (Decidable ('\n' ∉ s.toList))

/-- An output that has a place in a file: names and symbols have no line feeds, and the number of
elements in a part is a byte. -/
structure Output.Plain (o : Output) : Prop where
  /-- The names of the channels have no line feeds. -/
  names : ∀ ch ∈ o.channels, Text.Unbroken ch.name
  /-- The symbols have no line feeds. -/
  symbols : ∀ t ∈ o.tables, ∀ e ∈ t.entries, ∀ name, .symbol name ∈ e.main ++ e.loop →
    Text.Unbroken name
  /-- The number of elements in a part is a byte. -/
  lengths : ∀ t ∈ o.tables, ∀ e ∈ t.entries, e.main.length ≤ maxCells ∧ e.loop.length ≤ maxCells

/-! ### Texts -/

namespace Text

theorem unbroken_append {s t : String} : Unbroken (s ++ t) ↔ Unbroken s ∧ Unbroken t := by
  simp [Unbroken, String.toList_append]

theorem isDigit_of_mem_toString {c : Char} {n : Nat} (h : c ∈ (toString n).toList) :
    c.isDigit = true := by
  change c ∈ n.repr.toList at h
  rw [Nat.toList_repr] at h
  exact Nat.isDigit_of_mem_toDigits (by decide) (by decide) h

theorem unbroken_toString_nat (n : Nat) : Unbroken (toString n) := by
  intro h
  cases isDigit_of_mem_toString h

theorem unbroken_toString_int (n : Int) : Unbroken (toString n) := by
  cases n with
  | ofNat n => exact unbroken_toString_nat n
  | negSucc n => exact unbroken_append.mpr ⟨by decide, unbroken_toString_nat (n + 1)⟩

theorem not_mem_intercalate {c : Char} {sep : List Char} (hsep : c ∉ sep) :
    ∀ {parts : List (List Char)}, (∀ part ∈ parts, c ∉ part) → c ∉ sep.intercalate parts := by
  intro parts
  induction parts with
  | nil => simp
  | cons part parts ih =>
    intro h
    obtain ⟨hpart, hparts⟩ := List.forall_mem_cons.mp h
    cases parts with
    | nil => simpa using hpart
    | cons part' parts =>
      rw [List.intercalate_cons_cons]
      simp [hpart, hsep, ih hparts]

theorem unbroken_intercalate {sep : String} (hsep : Unbroken sep) {parts : List String}
    (h : ∀ part ∈ parts, Unbroken part) : Unbroken (sep.intercalate parts) := by
  unfold Unbroken
  rw [String.toList_intercalate]
  refine not_mem_intercalate hsep ?_
  simpa [Unbroken] using h

/-- A text of unbroken lines, each with a line feed after it, has these lines and an empty one. -/
theorem lines_foldl {ls : List String} (h : ∀ line ∈ ls, Unbroken line) :
    lines (ls.foldl (fun text line => text ++ line ++ "\n") "") = ls.map String.toList ++ [[]] := by
  have hfold : ∀ (ls : List String) (text : String),
      (ls.foldl (fun text line => text ++ line ++ "\n") text).toList =
        text.toList ++ ls.flatMap fun line => line.toList ++ ['\n'] := by
    intro ls
    induction ls with
    | nil => simp
    | cons line ls ih =>
      intro text
      rw [List.foldl_cons, ih]
      simp
  unfold lines
  rw [hfold]
  induction ls with
  | nil => simp
  | cons line ls ih =>
    obtain ⟨hline, hls⟩ := List.forall_mem_cons.mp h
    have hsplit := List.splitOn_append_cons_self_of_not_mem hline
      (ls.flatMap fun line => line.toList ++ ['\n'])
    simp only [List.flatMap_cons, List.append_assoc, List.singleton_append, String.toList_empty,
      List.nil_append] at ih hsplit ⊢
    rw [hsplit, ih hls, List.map_cons, List.cons_append]

/-! ### Operands -/

/-- **A text is its operands with commas between them.** -/
theorem intercalate_operands (text : String) : String.intercalate "," (operands text) = text := by
  rw [← String.toList_inj, String.toList_intercalate, operands, List.map_map]
  have hparts : (text.toList.splitOn ',').map (String.toList ∘ String.ofList) =
      text.toList.splitOn ',' := by
    simp [Function.comp_def]
  rw [hparts]
  exact List.intercalate_splitOn ','

theorem operands_injective : Function.Injective operands :=
  Function.LeftInverse.injective intercalate_operands

/-! ### Bytes -/

theorem digit?_hexDigit {n : Nat} (h : n < 16) : digit? (hexDigit n) = some n := by
  have key : ∀ n < 16, digit? (hexDigit n) = some n := by decide
  exact key n h

theorem hexDigit_ne {n : Nat} (h : n < 16) : hexDigit n ≠ ',' ∧ hexDigit n ≠ '\n' := by
  have key : ∀ n < 16, hexDigit n ≠ ',' ∧ hexDigit n ≠ '\n' := by decide
  exact key n h

theorem byte?_hexByte (b : UInt8) :
    byte? (hexDigit (b.toNat / 16)) (hexDigit (b.toNat % 16)) = some b := by
  have hb := b.toNat_lt
  have hjoin : 16 * (b.toNat / 16) + b.toNat % 16 = b.toNat := Nat.div_add_mod _ _
  unfold byte?
  rw [digit?_hexDigit (by omega), digit?_hexDigit (by omega)]
  change some (UInt8.ofNat (16 * (b.toNat / 16) + b.toNat % 16)) = some b
  rw [hjoin, UInt8.ofNat_toNat]

end Text

/-! ### Lines -/

namespace Dialect

theorem readByte?_hex (d : Dialect) (b : UInt8) : d.readByte? (d.hex b).toList = some b := by
  have hbyte := Text.byte?_hexByte b
  cases d with
  | wlaDx => simpa [hex, Text.hexByte, readByte?] using hbyte
  | gnuAs => simpa [hex, Text.hexByte, readByte?] using hbyte

theorem not_mem_hex (d : Dialect) (b : UInt8) :
    ',' ∉ (d.hex b).toList ∧ '\n' ∉ (d.hex b).toList := by
  have hb := b.toNat_lt
  obtain ⟨hhigh, hhigh'⟩ := Text.hexDigit_ne (n := b.toNat / 16) (by omega)
  obtain ⟨hlow, hlow'⟩ := Text.hexDigit_ne (n := b.toNat % 16) (by omega)
  cases d with
  | wlaDx => simp [hex, Text.hexByte, hhigh.symm, hhigh'.symm, hlow.symm, hlow'.symm]
  | gnuAs => simp [hex, Text.hexByte, hhigh.symm, hhigh'.symm, hlow.symm, hlow'.symm]

theorem mapM_readByte? (d : Dialect) (bytes : List UInt8) :
    (bytes.map fun b => (d.hex b).toList).mapM d.readByte? = some bytes := by
  induction bytes with
  | nil => rfl
  | cons b bytes ih => simp [List.mapM_cons, readByte?_hex, ih]

theorem readLine?_commentLine (d : Dialect) (text : String) :
    d.readLine? (d.commentLine text).toList = some .nothing := by
  cases d <;> simp [commentLine, comment, readLine?]

theorem readLine?_alignment {d : Dialect} {align : String} (h : d.wordAlignment? = some align) :
    d.readLine? ("\t" ++ align).toList = some .nothing := by
  cases d with
  | wlaDx => cases h
  | gnuAs =>
    cases h
    decide

/-- A line that starts with a letter and ends with a colon defines a label. -/
theorem readLine?_labelLine (d : Dialect) {name : String} (h : name.toList.head? = some 'm') :
    d.readLine? (labelLine name).toList = some (.label name) := by
  obtain ⟨cs, hcs⟩ : ∃ cs, name.toList = 'm' :: cs := List.head?_eq_some_iff.mp h
  have hname : String.ofList ('m' :: cs) = name := by rw [← hcs, String.ofList_toList]
  have hlast : ('m' :: (cs ++ [':'])).getLast? = some ':' := by
    rw [← List.cons_append, List.getLast?_concat]
  have hinit : ('m' :: (cs ++ [':'])).dropLast = 'm' :: cs := by
    rw [← List.cons_append, List.dropLast_concat]
  cases d <;> simp [labelLine, comment, readLine?, hcs, hlast, hinit, hname]

theorem readLine?_wordLine (d : Dialect) (words : List String) :
    d.readLine? (d.wordLine words).toList =
      some (.words (Text.operands (String.intercalate ", " words))) := by
  cases d <;>
    simp [wordLine, wordDirective, byteDirective, readLine?, readDirective?, Text.operands]

theorem readLine?_byteLine (d : Dialect) {bytes : List UInt8} (h : bytes ≠ []) :
    d.readLine? (d.byteLine bytes).toList = some (.bytes bytes) := by
  have hsplit : ([','].intercalate (bytes.map fun b => (d.hex b).toList)).splitOn ',' =
      bytes.map fun b => (d.hex b).toList := by
    refine List.splitOn_intercalate ',' ?_ (by simpa using h)
    intro part hpart
    obtain ⟨b, -, rfl⟩ := List.mem_map.mp hpart
    exact (d.not_mem_hex b).1
  have hread := d.mapM_readByte? bytes
  cases d <;>
    simp [byteLine, byteDirective, readLine?, readDirective?, Function.comp_def, hsplit, hread]

/-! ### Runs of lines -/

/-- A line that holds no line feed and not too many bytes. -/
structure Neat (d : Dialect) (line : String) : Prop where
  /-- There is no line feed in the line. -/
  unbroken : Text.Unbroken line
  /-- There are not too many bytes on it. -/
  short : ∀ values, d.readLine? line.toList = some (.bytes values) → values.length ≤ bytesPerLine

/-- Lines without a label, which put something in front of what follows them. -/
structure Fills (d : Dialect) (ls : List String) (items : List Item) : Prop where
  /-- Each line is neat. -/
  neat : ∀ line ∈ ls, d.Neat line
  /-- It is read in front of what follows. -/
  read : ∀ {rest : List (List Char)} {more : List Item} {blocks : List Block},
    d.readLines? rest = some (more, blocks) →
      d.readLines? (ls.map String.toList ++ rest) = some (items ++ more, blocks)

/-- Lines that are some blocks, if what follows them starts with a label. -/
structure Writes (d : Dialect) (ls : List String) (blocks : List Block) : Prop where
  /-- Each line is neat. -/
  neat : ∀ line ∈ ls, d.Neat line
  /-- The blocks are read in front of those that follow. -/
  read : ∀ {rest : List (List Char)} {more : List Block},
    d.readLines? rest = some ([], more) →
      d.readLines? (ls.map String.toList ++ rest) = some ([], blocks ++ more)

variable {d : Dialect} {ls ls' : List String} {items items' : List Item}
  {blocks blocks' : List Block}

theorem readLines?_cons {line : List Char} {lines : List (List Char)} {s : Statement}
    {p : List Item × List Block} (hs : d.readLine? line = some s)
    (hp : d.readLines? lines = some p) : d.readLines? (line :: lines) = some (s.add p) := by
  simp [readLines?, hs, hp]

namespace Fills

theorem nil : d.Fills [] [] := ⟨by simp, fun h => h⟩

theorem append (h : d.Fills ls items) (h' : d.Fills ls' items') :
    d.Fills (ls ++ ls') (items ++ items') := by
  refine ⟨List.forall_mem_append.mpr ⟨h.neat, h'.neat⟩, fun hrest => ?_⟩
  rw [List.map_append, List.append_assoc, List.append_assoc]
  exact h.read (h'.read hrest)

theorem of_nothing {line : String} (hline : Text.Unbroken line)
    (h : d.readLine? line.toList = some .nothing) : d.Fills [line] [] := by
  refine ⟨?_, fun hrest => readLines?_cons h hrest⟩
  rw [List.forall_mem_singleton]
  refine ⟨hline, fun values hvalues => ?_⟩
  rw [h] at hvalues
  cases hvalues

theorem comment {text : String} (h : Text.Unbroken text) : d.Fills [d.commentLine text] [] := by
  refine of_nothing ?_ (d.readLine?_commentLine text)
  rw [commentLine, Text.unbroken_append, Text.unbroken_append]
  exact ⟨⟨by cases d <;> decide, by decide⟩, h⟩

theorem words {ws : List String} (h : ∀ w ∈ ws, Text.Unbroken w) :
    d.Fills [d.wordLine ws] [.words (Text.operands (String.intercalate ", " ws))] := by
  have hread := d.readLine?_wordLine ws
  refine ⟨?_, fun hrest => readLines?_cons hread hrest⟩
  rw [List.forall_mem_singleton]
  refine ⟨?_, fun values hvalues => ?_⟩
  · rw [wordLine, Text.unbroken_append]
    exact ⟨by cases d <;> decide, Text.unbroken_intercalate (by decide) h⟩
  · rw [hread] at hvalues
    cases hvalues

theorem bytes {bs : List UInt8} (hne : bs ≠ []) (hle : bs.length ≤ bytesPerLine) :
    d.Fills [d.byteLine bs] (bs.map .byte) := by
  have hread := d.readLine?_byteLine hne
  refine ⟨?_, fun hrest => readLines?_cons hread hrest⟩
  rw [List.forall_mem_singleton]
  refine ⟨?_, fun values hvalues => ?_⟩
  · rw [byteLine, Text.unbroken_append]
    refine ⟨by cases d <;> decide, Text.unbroken_intercalate (by decide) ?_⟩
    intro part hpart
    obtain ⟨b, -, rfl⟩ := List.mem_map.mp hpart
    exact (d.not_mem_hex b).2
  · rw [hread] at hvalues
    cases hvalues
    exact hle

/-- Lines for the parts of a list fill a block with the parts, one after the other. -/
theorem flatMap {α : Type} {f : α → List String} {g : α → List Item} :
    ∀ {xs : List α}, (∀ x ∈ xs, d.Fills (f x) (g x)) → d.Fills (xs.flatMap f) (xs.flatMap g) := by
  intro xs
  induction xs with
  | nil => exact fun _ => nil
  | cons x xs ih =>
    intro h
    obtain ⟨hx, hxs⟩ := List.forall_mem_cons.mp h
    exact hx.append (ih hxs)

end Fills

namespace Writes

theorem nil : d.Writes [] [] := ⟨by simp, fun h => h⟩

theorem append (h : d.Writes ls blocks) (h' : d.Writes ls' blocks') :
    d.Writes (ls ++ ls') (blocks ++ blocks') := by
  refine ⟨List.forall_mem_append.mpr ⟨h.neat, h'.neat⟩, fun hrest => ?_⟩
  rw [List.map_append, List.append_assoc, List.append_assoc]
  exact h.read (h'.read hrest)

theorem flatMap {α : Type} {f : α → List String} {g : α → List Block} :
    ∀ {xs : List α}, (∀ x ∈ xs, d.Writes (f x) (g x)) → d.Writes (xs.flatMap f) (xs.flatMap g) := by
  intro xs
  induction xs with
  | nil => exact fun _ => nil
  | cons x xs ih =>
    intro h
    obtain ⟨hx, hxs⟩ := List.forall_mem_cons.mp h
    exact hx.append (ih hxs)

/-- Lines that say nothing may stand before blocks. -/
theorem after (h : d.Fills ls []) (h' : d.Writes ls' blocks) : d.Writes (ls ++ ls') blocks := by
  refine ⟨List.forall_mem_append.mpr ⟨h.neat, h'.neat⟩, fun hrest => ?_⟩
  rw [List.map_append, List.append_assoc]
  exact h.read (h'.read hrest)

/-- A label and lines that fill its block. -/
theorem block {name : String} (hname : name.toList.head? = some 'm') (hline : Text.Unbroken name)
    (h : d.Fills ls items) : d.Writes (labelLine name :: ls) [⟨name, items⟩] := by
  have hread := d.readLine?_labelLine hname
  refine ⟨List.forall_mem_cons.mpr ⟨⟨?_, fun values hvalues => ?_⟩, h.neat⟩, fun hrest => ?_⟩
  · exact Text.unbroken_append.mpr ⟨hline, by decide⟩
  · rw [hread] at hvalues
    cases hvalues
  · have hblock := readLines?_cons hread (h.read hrest)
    rwa [List.append_nil] at hblock

end Writes

end Dialect

/-! ### The lines of an output -/

theorem flatten_chunks {α : Type} {n : Nat} (hn : n ≠ 0) (xs : List α) :
    (chunks n xs).flatten = xs := by
  fun_induction chunks n xs with
  | case1 xs h =>
    rcases h with h | rfl
    · exact absurd h hn
    · rfl
  | case2 xs h ih => rw [List.flatten_cons, ih, List.take_append_drop]

theorem of_mem_chunks {α : Type} {n : Nat} {xs part : List α} (h : part ∈ chunks n xs) :
    part ≠ [] ∧ part.length ≤ n ∧ ∀ x ∈ part, x ∈ xs := by
  fun_induction chunks n xs with
  | case1 => cases h
  | case2 xs hne ih =>
    rcases List.mem_cons.mp h with rfl | h
    · refine ⟨?_, List.length_take_le n xs, fun x hx => List.mem_of_mem_take hx⟩
      simpa [not_or] using hne
    · obtain ⟨hpart, hle, hsub⟩ := ih h
      exact ⟨hpart, hle, fun x hx => List.mem_of_mem_drop (hsub x hx)⟩

theorem head?_append_of_label {name s : String} (h : name.toList.head? = some 'm') :
    (name ++ s).toList.head? = some 'm' := by
  rw [String.toList_append, List.head?_append, h]
  rfl

theorem unbroken_effectLabel (effect : Effect) :
    Text.Unbroken effect.label ∧ Text.Unbroken effect.name := by
  cases effect <;> decide

theorem unbroken_macroLabel (effect : Effect) (key : Nat) :
    Text.Unbroken (macroLabel effect key) := by
  rw [macroLabel, Text.unbroken_append, Text.unbroken_append]
  exact ⟨⟨by decide, (unbroken_effectLabel effect).1⟩, Text.unbroken_toString_nat key⟩

theorem unbroken_tableLabel (effect : Effect) : Text.Unbroken (tableLabel effect) := by
  cases effect <;> decide

theorem unbroken_loopLabel {label : String} (h : Text.Unbroken label) :
    Text.Unbroken (loopLabel label) :=
  Text.unbroken_append.mpr ⟨h, by decide⟩

theorem unbroken_channelLabel {name : String} (h : Text.Unbroken name) :
    Text.Unbroken (channelLabel name) :=
  Text.unbroken_append.mpr ⟨by decide, h⟩

theorem head?_channelLabel (name : String) : (channelLabel name).toList.head? = some 'm' :=
  head?_append_of_label rfl

theorem head?_macroLabel (effect : Effect) (key : Nat) :
    (macroLabel effect key).toList.head? = some 'm' :=
  head?_append_of_label (head?_append_of_label rfl)

theorem head?_tableLabel (effect : Effect) : (tableLabel effect).toList.head? = some 'm' :=
  head?_append_of_label (head?_append_of_label rfl)

namespace Dialect

variable (d : Dialect)

theorem byteLines_fills (bytes : List UInt8) : d.Fills (d.byteLines bytes) (bytes.map .byte) := by
  have hitems : bytes.map Item.byte = (chunks bytesPerLine bytes).flatMap (List.map .byte) := by
    rw [List.flatMap_def, ← List.map_flatten, flatten_chunks (by decide)]
  rw [byteLines, List.map_eq_flatMap, hitems]
  refine Fills.flatMap fun bs hbs => ?_
  obtain ⟨hne, hle, -⟩ := of_mem_chunks hbs
  exact .bytes hne hle

/-- **The elements of a part are read back in order**, whatever runs of bytes and symbols there
are. -/
theorem cellLines_fills (bytes : Array UInt8) (cells : List Cell)
    (h : ∀ name, .symbol name ∈ cells → Text.Unbroken name) :
    d.Fills (d.cellLines bytes cells) (bytes.toList.map .byte ++ cells.map .ofCell) := by
  induction cells generalizing bytes with
  | nil =>
    rw [List.map_nil, List.append_nil]
    exact d.byteLines_fills bytes.toList
  | cons cell cells ih =>
    have hcells : ∀ name, .symbol name ∈ cells → Text.Unbroken name :=
      fun name hname => h name (List.mem_cons_of_mem _ hname)
    cases cell with
    | byte b =>
      have hfills := ih (bytes.push b) hcells
      rw [Array.toList_push, List.map_append, List.append_assoc] at hfills
      exact hfills
    | symbol name =>
      have hname : ∀ w ∈ [name], Text.Unbroken w :=
        List.forall_mem_singleton.mpr (h name List.mem_cons_self)
      have hword := Fills.words (d := d) hname
      rw [String.intercalate_singleton] at hword
      exact (d.byteLines_fills bytes.toList).append (hword.append (ih #[] hcells))

theorem partLines_fills {cells : List Cell} (hlength : cells.length ≤ maxCells)
    (h : ∀ name, .symbol name ∈ cells → Text.Unbroken name) :
    d.Fills (d.partLines cells) (Cell.counted cells) := by
  have hmin : min cells.length 255 = cells.length := Nat.min_eq_left hlength
  have hfills := d.cellLines_fills #[.ofNat (min cells.length 255)] cells h
  unfold partLines
  rw [hmin] at hfills ⊢
  exact hfills

/-- A table of words is one block. -/
theorem wordTable_writes {label : String} (hlabel : label.toList.head? = some 'm')
    (hline : Text.Unbroken label) {words : List String} (h : ∀ w ∈ words, Text.Unbroken w) :
    d.Writes (d.wordTable label words) [.ofWords label words] := by
  have halign : d.Fills (d.wordAlignment?.toList.map ("\t" ++ ·)) [] := by
    cases halign : d.wordAlignment? with
    | none => exact .nil
    | some align =>
      refine .of_nothing ?_ (readLine?_alignment halign)
      cases d <;> cases halign
      decide
  have hwords : d.Fills ((chunks wordsPerLine words).map d.wordLine)
      ((chunks wordsPerLine words).map fun ws =>
        .words (Text.operands (String.intercalate ", " ws))) := by
    rw [List.map_eq_flatMap, List.map_eq_flatMap]
    refine Fills.flatMap fun ws hws => ?_
    obtain ⟨-, -, hsub⟩ := of_mem_chunks hws
    exact .words fun w hw => h w (hsub w hw)
  rw [wordTable, List.append_assoc]
  exact .after halign (.block hlabel hline hwords)

theorem channelLines_writes {ch : ChannelStream} (h : Text.Unbroken ch.name) :
    d.Writes (d.channelLines ch) ch.blocks := by
  have hlabel := head?_channelLabel ch.name
  have hline := unbroken_channelLabel h
  have htitle : Text.Unbroken ("channel " ++ ch.name ++ ": " ++ toString ch.ticks ++ " ticks, " ++
      toString ch.frames ++ " frames" ++ if ch.isVirtual then " (virtual)" else "") := by
    simp only [Text.unbroken_append]
    refine ⟨⟨⟨⟨⟨⟨⟨by decide, h⟩, by decide⟩, ?_⟩, by decide⟩, ?_⟩, by decide⟩, ?_⟩
    · exact Text.unbroken_toString_nat ch.ticks
    · exact Text.unbroken_toString_int ch.frames
    · split <;> decide
  have hblank : d.Fills [""] [] := .of_nothing (by decide) rfl
  have htop := hblank.append (.comment htitle)
  unfold channelLines ChannelStream.blocks
  cases ch.loopOffset with
  | none =>
    have hdata := Writes.block hlabel hline (d.byteLines_fills ch.data)
    exact (Writes.after htop hdata :)
  | some offset =>
    have hdata := Writes.block hlabel hline (d.byteLines_fills (ch.data.take offset))
    have hloop := Writes.block (head?_append_of_label hlabel) (unbroken_loopLabel hline)
      (d.byteLines_fills (ch.data.drop offset))
    exact (Writes.after htop (hdata.append hloop) :)

theorem macroLines_writes {effect : Effect} {e : TableEntry}
    (hlengths : e.main.length ≤ maxCells ∧ e.loop.length ≤ maxCells)
    (h : ∀ name, .symbol name ∈ e.main ++ e.loop → Text.Unbroken name) :
    d.Writes (d.macroLines effect e) (e.blocks effect) := by
  have hlabel := head?_macroLabel effect e.key
  have hline := unbroken_macroLabel effect e.key
  have hmain := d.partLines_fills hlengths.1 fun name hname =>
    h name (List.mem_append_left _ hname)
  have hloop := d.partLines_fills hlengths.2 fun name hname =>
    h name (List.mem_append_right _ hname)
  exact (Writes.block hlabel hline hmain).append
    (.block (head?_append_of_label hlabel) (unbroken_loopLabel hline) hloop)

theorem tableLines_writes {t : MacroTable}
    (hlengths : ∀ e ∈ t.entries, e.main.length ≤ maxCells ∧ e.loop.length ≤ maxCells)
    (h : ∀ e ∈ t.entries, ∀ name, .symbol name ∈ e.main ++ e.loop → Text.Unbroken name) :
    d.Writes (d.tableLines t) t.blocks := by
  have hname := (unbroken_effectLabel t.effect).2
  have htitle : Text.Unbroken (t.effect.name ++ " macros") :=
    Text.unbroken_append.mpr ⟨hname, by decide⟩
  have hblank : d.Fills [""] [] := .of_nothing (by decide) rfl
  have htop := hblank.append (.comment htitle)
  have hpointers : ∀ w ∈ t.pointers, Text.Unbroken w := by
    intro w hw
    obtain ⟨e, -, hw⟩ := List.mem_flatMap.mp hw
    have hmacro := unbroken_macroLabel t.effect e.key
    rcases List.mem_pair.mp hw with rfl | rfl
    · exact hmacro
    · exact unbroken_loopLabel hmacro
  have htable := d.wordTable_writes (head?_tableLabel t.effect) (unbroken_tableLabel t.effect)
    hpointers
  have hmacros : d.Writes (t.entries.flatMap (d.macroLines t.effect))
      (t.entries.flatMap (·.blocks t.effect)) :=
    .flatMap fun e he => d.macroLines_writes (hlengths e he) (h e he)
  unfold tableLines
  exact (Writes.after htop (htable.append hmacros) :)

end Dialect

/-- **The lines of the file are the blocks of the output.** -/
theorem Output.asmLines_writes {o : Output} (h : o.Plain) :
    o.dialect.Writes o.asmLines o.blocks := by
  have htarget : Text.Unbroken ("chipmml output for " ++ o.target.name) :=
    Text.unbroken_append.mpr ⟨by decide, by cases o.target <;> decide⟩
  have hsize : Text.Unbroken (toString o.binarySize ++ " bytes of channel data") :=
    Text.unbroken_append.mpr ⟨Text.unbroken_toString_nat _, by decide⟩
  have hblank : o.dialect.Fills [""] [] := .of_nothing (by decide) rfl
  have htop := (Dialect.Fills.comment htarget).append ((Dialect.Fills.comment hsize).append hblank)
  have hlabels : ∀ w ∈ o.channels.map fun ch => channelLabel ch.name, Text.Unbroken w := by
    intro w hw
    obtain ⟨ch, hch, rfl⟩ := List.mem_map.mp hw
    exact unbroken_channelLabel (h.names ch hch)
  have hlabel : "mml_channel_table".toList.head? = some 'm' := rfl
  have htable := o.dialect.wordTable_writes hlabel (by decide) hlabels
  have hchannels : o.dialect.Writes (o.channels.flatMap o.dialect.channelLines)
      (o.channels.flatMap (·.blocks)) :=
    .flatMap fun ch hch => o.dialect.channelLines_writes (h.names ch hch)
  have htables : o.dialect.Writes (o.tables.flatMap o.dialect.tableLines)
      (o.tables.flatMap (·.blocks)) :=
    .flatMap fun t ht => o.dialect.tableLines_writes (h.lengths t ht) (h.symbols t ht)
  unfold asmLines
  rw [List.append_assoc, List.append_assoc]
  exact (Dialect.Writes.after htop (htable.append (hchannels.append htables)) :)

/-- The file is read back as the blocks of the output. -/
theorem Output.assemble?_asm {o : Output} (h : o.Plain) :
    o.dialect.assemble? o.asm = some o.blocks := by
  obtain ⟨hneat, hread⟩ := asmLines_writes h
  have hlines := Text.lines_foldl fun line hline => (hneat line hline).unbroken
  have hend : o.dialect.readLines? [[]] = some ([], []) := rfl
  rw [Dialect.assemble?, asm, hlines, hread hend]
  simp

/-- No line of the file has too many bytes. -/
theorem Output.short_of_mem_lines {o : Output} (h : o.Plain) {line : List Char}
    (hline : line ∈ Text.lines o.asm) {values : List UInt8}
    (hvalues : o.dialect.readLine? line = some (.bytes values)) : values.length ≤ bytesPerLine := by
  have hneat := (asmLines_writes h).neat
  rw [asm, Text.lines_foldl fun line hline => (hneat line hline).unbroken] at hline
  rcases List.mem_append.mp hline with hline | hline
  · obtain ⟨text, htext, rfl⟩ := List.mem_map.mp hline
    exact (hneat text htext).short values hvalues
  · rw [List.mem_singleton.mp hline] at hvalues
    cases hvalues

/-- An element of a table can be told from what is read of it. -/
theorem Item.ofCell_injective : Function.Injective Item.ofCell := by
  intro cell cell' h
  cases cell with
  | byte b =>
    cases cell' with
    | byte b' =>
      cases h
      rfl
    | symbol name' => cases h
  | symbol name =>
    cases cell' with
    | byte b' => cases h
    | symbol name' => rw [Text.operands_injective (Item.words.inj h)]

/-- So can a part of a macro. -/
theorem Cell.counted_injective : Function.Injective Cell.counted := fun _ _ h =>
  List.map_injective_iff.mpr Item.ofCell_injective (List.cons.inj h).2

/-- **Nothing is lost in the file.**  Names and symbols may be any text without a line feed, and a
part of a macro has at most 255 elements.  Then either assembler reads the file of an output that is
written for it as the blocks of the output: the bytes of each channel in order, those before the
loop point under the label of the channel and the others under that of its loop; and for each part
of a macro, under its label, the number of its elements and then the elements in order.  So both
read the same, and a part can be told from what is read of it, even if there are commas in its
symbols.  No line has more than sixteen bytes. -/
theorem assemble_asm {o : Output} (h : o.Plain) (d : Dialect) :
    d.assemble? { o with dialect := d }.asm = some o.blocks ∧
      Function.Injective Cell.counted ∧
      ∀ line ∈ Text.lines { o with dialect := d }.asm, ∀ values,
        d.readLine? line = some (.bytes values) → values.length ≤ 16 := by
  have hplain : ({ o with dialect := d } : Output).Plain := ⟨h.names, h.symbols, h.lengths⟩
  have hread := Output.assemble?_asm hplain
  refine ⟨hread, Cell.counted_injective, fun line hline values hvalues => ?_⟩
  exact Output.short_of_mem_lines hplain hline hvalues

/-- A channel with a loop after more bytes than a line has, and a macro with symbols first, last and
next to each other, one of them with a comma, and with nothing to repeat. -/
theorem assemble_asm_symbols :
    let o : Output :=
      { target := .sms
        dialect := .wlaDx
        channels := [⟨"A", List.replicate 17 1 ++ [2], some 17, 0, 0, false, []⟩]
        tables := [⟨.duty, [⟨7, [.symbol "x, y", .symbol "$00", .byte 3, .symbol "z:"], [], 0⟩]⟩]
        binarySize := 18 }
    o.Plain ∧ ∀ d : Dialect, d.assemble? { o with dialect := d }.asm = some
      [⟨"mml_channel_table", [.words ["mml_channel_A"]]⟩,
        ⟨"mml_channel_A", List.replicate 17 (.byte 1)⟩,
        ⟨"mml_channel_A_loop", [.byte 2]⟩,
        ⟨"mml_DT_table", [.words ["mml_DT7", " mml_DT7_loop"]]⟩,
        ⟨"mml_DT7",
          [.byte 4, .words ["x", " y"], .words ["$00"], .byte 3, .words ["z:"]]⟩,
        ⟨"mml_DT7_loop", [.byte 0]⟩] := by
  intro o
  have hplain : o.Plain := by
    refine ⟨?_, ?_, ?_⟩
    · decide
    · simp [o, Text.Unbroken]
    · decide
  refine ⟨hplain, fun d => ?_⟩
  rw [(assemble_asm hplain d).1]
  cbv

end Chiptune
