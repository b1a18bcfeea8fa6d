import Chiptune.Error

/-!
# Reading command streams

A reader keeps its place in the bytes of a stream. Reading a command moves it past the
command; after a failure it stands where the defect was noticed.

## Main definitions

* `Reader` — a place in some bytes.
* `Reader.next` — reads one command.
* `Reader.readAll` — reads up to the end of the channel or of the data.
* `Reader.steps` — reads until something fails, past the ends of channels.
-/

namespace Chiptune

/-- A place in the bytes of a stream. -/
structure Reader where
  /-- How many bytes the stream has. -/
  size : Nat
  /-- The bytes after the place. -/
  rest : List UInt8
  deriving Repr, DecidableEq

namespace Reader

/-- The place before all bytes. -/
def ofBytes (bytes : List UInt8) : Reader := ⟨bytes.length, bytes⟩

/-- How many bytes there are before the place. -/
def position (r : Reader) : Nat := r.size - r.rest.length

/-- Whether no byte is left. -/
def atEnd (r : Reader) : Bool := r.rest.isEmpty

/-- Moves on by some bytes. -/
def skip (r : Reader) (n : Nat) : Reader := { r with rest := r.rest.drop n }

/-- Reads one command. -/
def next : EStateM Error Reader Command := fun r =>
  match Command.decode r.rest with
  | .ok (c, rest) => .ok c { r with rest := rest }
  | .error f => .error (.stream (r.skip f.taken).position f.defect) (r.skip f.taken)

/-- A command that was read moved the reader. -/
theorem next_lt {r r' : Reader} {c : Command} (h : next r = .ok c r') :
    r'.rest.length < r.rest.length := by
  unfold next at h
  split at h
  · next hd =>
    cases h
    exact Command.decode_lt hd
  · cases h

/-- Reads on after the commands `done`. -/
def readOnto (done : Array Command) (r : Reader) : EStateM.Result Error Reader (List Command) :=
  if r.atEnd then .ok done.toList r
  else
    match _h : next r with
    | .error e r' => .error e r'
    | .ok c r' =>
      if c.isTerminator then .ok (done.push c).toList r' else readOnto (done.push c) r'
termination_by r.rest.length
decreasing_by exact next_lt (by assumption)

/-- Reads up to and with the first command that ends the channel, or to the end of the data. -/
def readAll : EStateM Error Reader (List Command) := readOnto #[]

/-- Reads until something fails. The result has each command with the position after it, and
then the error with the position where it left the reader. -/
def steps (r : Reader) : List (Command × Nat) × Error × Nat :=
  match _h : next r with
  | .error e r' => ([], e, r'.position)
  | .ok c r' =>
    let (read, last) := steps r'
    ((c, r'.position) :: read, last)
termination_by r.rest.length
decreasing_by exact next_lt (by assumption)

end Reader

/-- Decodes the commands of a channel. -/
def decodeCommands (bytes : List UInt8) : Except Error (List Command) :=
  match Reader.readAll (.ofBytes bytes) with
  | .ok cs _ => .ok cs
  | .error e _ => .error e

end Chiptune
