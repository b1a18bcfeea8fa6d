import Chiptune.Output

/-!
# Assembly output

Output is written as an assembly file: a table of the channels, the bytes of each channel, and
for each effect a table of its macros and the macros themselves. A macro is a count and the
elements of its main part, and the same for its loop part. Each part has a label.

The file is made line by line; a line is what stands before its line feed.

## Main definitions

* `Output.asmLines` — the lines of the file.
* `Output.asm` — the text of the file.
-/

namespace Chiptune

/-- Splits a list into parts of `n`, of which the last may be shorter. -/
def chunks {α : Type} (n : Nat) (xs : List α) : List (List α) :=
  if _h : n = 0 ∨ xs = [] then []
  else xs.take n :: chunks n (xs.drop n)
termination_by xs.length
decreasing_by
  have := List.length_pos_iff.2 fun hx => _h (.inr hx)
  simp only [List.length_drop]
  omega

/-- The most bytes on a line. -/
def bytesPerLine : Nat := 16

/-- The most words on a line. -/
def wordsPerLine : Nat := 8

/-- The label of a channel. -/
def channelLabel (name : String) : String := "mml_channel_" ++ name

/-- The label of a macro. -/
def macroLabel (effect : Effect) (key : Nat) : String := "mml_" ++ effect.label ++ toString key

/-- The label of the loop part of something. -/
def loopLabel (label : String) : String := label ++ "_loop"

namespace Dialect

/-- A line that defines a label. -/
def labelLine (label : String) : String := label ++ ":"

/-- A comment on a line of its own. -/
def commentLine (d : Dialect) (text : String) : String := d.comment ++ " " ++ text

/-- A line with words. -/
def wordLine (d : Dialect) (words : List String) : String :=
  "\t" ++ d.wordDirective ++ " " ++ String.intercalate ", " words

/-- A line with bytes. -/
def byteLine (d : Dialect) (bytes : List UInt8) : String :=
  "\t" ++ d.byteDirective ++ " " ++ String.intercalate "," (bytes.map d.hex)

/-- The lines with some bytes. -/
def byteLines (d : Dialect) (bytes : List UInt8) : List String :=
  (chunks bytesPerLine bytes).map d.byteLine

/-- The lines of a table of words. -/
def wordTable (d : Dialect) (label : String) (words : List String) : List String :=
  d.wordAlignment?.toList.map ("\t" ++ ·) ++ [labelLine label] ++
    (chunks wordsPerLine words).map d.wordLine

/-- The lines with some bytes and the elements after them. A symbol is a word. -/
def cellLines (d : Dialect) (bytes : Array UInt8) : List Cell → List String
  | [] => d.byteLines bytes.toList
  | .byte b :: cells => cellLines d (bytes.push b) cells
  | .symbol name :: cells => d.byteLines bytes.toList ++ d.wordLine [name] :: cellLines d #[] cells

/-- The lines with the elements of a part of a macro, after their number. -/
def partLines (d : Dialect) (cells : List Cell) : List String :=
  d.cellLines #[.ofNat (min cells.length 255)] cells

/-- The lines of a channel. -/
def channelLines (d : Dialect) (ch : ChannelStream) : List String :=
  let label := channelLabel ch.name
  let kind := if ch.isVirtual then " (virtual)" else ""
  let title := s!"channel {ch.name}: {ch.ticks} ticks, {ch.frames} frames{kind}"
  ["", d.commentLine title, labelLine label] ++
    match ch.loopOffset with
    | none => d.byteLines ch.data
    | some offset =>
      d.byteLines (ch.data.take offset) ++ labelLine (loopLabel label) ::
        d.byteLines (ch.data.drop offset)

/-- The lines of a macro. -/
def macroLines (d : Dialect) (effect : Effect) (e : TableEntry) : List String :=
  let label := macroLabel effect e.key
  labelLine label :: d.partLines e.main ++ labelLine (loopLabel label) :: d.partLines e.loop

/-- The lines of a table of macros. -/
def tableLines (d : Dialect) (t : MacroTable) : List String :=
  let pointers := t.entries.flatMap fun e =>
    [macroLabel t.effect e.key, loopLabel (macroLabel t.effect e.key)]
  ["", d.commentLine (t.effect.name ++ " macros")] ++
    d.wordTable ("mml_" ++ t.effect.label ++ "_table") pointers ++
    t.entries.flatMap (d.macroLines t.effect)

end Dialect

namespace Output

/-- The lines of the assembly file. -/
def asmLines (o : Output) : List String :=
  let d := o.dialect
  [d.commentLine ("chipmml output for " ++ o.target.name),
    d.commentLine s!"{o.binarySize} bytes of channel data", ""] ++
    d.wordTable "mml_channel_table" (o.channels.map fun ch => channelLabel ch.name) ++
    o.channels.flatMap d.channelLines ++ o.tables.flatMap d.tableLines

/-- The text of the assembly file. -/
def asm (o : Output) : String := o.asmLines.foldl (fun text line => text ++ line ++ "\n") ""

end Output

end Chiptune
