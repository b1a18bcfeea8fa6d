/-!
# Macro parameters

A macro is a sequence of parameters with two parts: the main part is read once, the loop part
again and again after it. A playhead is a place in such a sequence.

## Main definitions

* `Param` — a number, or a symbol that the assembler resolves.
* `ParamSeq` — a sequence with a main and a loop part.
* `Playhead` — a sequence and a place in it.
* `Playhead.next` — reads the parameter at the place and moves on.
-/

namespace Chiptune

/-- A parameter of a macro. -/
inductive Param where
  /-- A number. -/
  | int (value : Int)
  /-- A symbol. -/
  | text (value : String)
  deriving DecidableEq, Repr

namespace Param

/-- The number, unless the parameter is a symbol. -/
def toInt? : Param → Option Int
  | int n => some n
  | text _ => none

/-- The parameter as text. -/
def render : Param → String
  | int n => toString n
  | text s => s

end Param

/-- A sequence of parameters. -/
structure ParamSeq where
  /-- The part that is read once. -/
  main : List Param
  /-- The part that is repeated. -/
  loop : List Param
  deriving DecidableEq, Repr, Inhabited

namespace ParamSeq

/-- All parameters, those of the main part first. -/
def toList (s : ParamSeq) : List Param := s.main ++ s.loop

/-- The number of parameters. -/
def length (s : ParamSeq) : Nat := s.main.length + s.loop.length

/-- Whether there is no parameter. -/
def isEmpty (s : ParamSeq) : Bool := s.main.isEmpty && s.loop.isEmpty

end ParamSeq

/-- A place in a sequence of parameters. -/
structure Playhead where
  /-- The sequence. -/
  seq : ParamSeq
  /-- Whether the place is in the loop part. -/
  inLoop : Bool
  /-- The index in that part. -/
  pos : Nat
  deriving DecidableEq, Repr, Inhabited

namespace Playhead

/-- The first place of a sequence. -/
def start (s : ParamSeq) : Playhead := ⟨s, s.main.isEmpty && !s.loop.isEmpty, 0⟩

/-- Goes back to the first place. -/
def rewind (h : Playhead) : Playhead := start h.seq

/-- The parameter at the place. -/
def peek? (h : Playhead) : Option Param :=
  if h.inLoop then h.seq.loop[h.pos]? else h.seq.main[h.pos]?

/-- Moves on by one. The loop part follows the main part and repeats; without a loop part the
place stays at the last parameter. -/
def advance (h : Playhead) : Playhead :=
  if !h.inLoop && h.pos + 1 < h.seq.main.length then
    { h with pos := h.pos + 1 }
  else if h.seq.loop.isEmpty then
    h
  else if h.inLoop then
    { h with pos := (h.pos + 1) % h.seq.loop.length }
  else
    { h with inLoop := true, pos := 0 }

/-- Reads the parameter at the place and moves on. -/
def next (h : Playhead) : Option Param × Playhead := (h.peek?, h.advance)

end Playhead

end Chiptune
