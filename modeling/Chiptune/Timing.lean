/-!
# Timing

Scores count in ticks, thirty-seconds of a whole note; drivers count in frames of the
screen refresh. Some drivers keep frames with eight fractional bits, so all lengths here
are in *units*: a frame is `FrameClock.scale` units.

A note's length is split into the part that sounds and a silent part, the cutoff. The
command stream has room for a limited delay only, so the sounding part may be clamped.

## Main definitions

* `Cutoff` — how much of a note is silent, and on which side.
* `FrameClock` — refresh rate and precision of a driver.
* `unitsPerTick` — length of a tick at a tempo.
* `splitNote` — sounding and silent part of a note.
-/

namespace Chiptune

/-- How a note's silent part is measured. -/
inductive CutoffMeasure where
  /-- The value is the sounding part, in eighths of the note. -/
  | eighths
  /-- The value is the silent part, in frames. -/
  | frames
  deriving DecidableEq, Repr

/-- The silent part of a note. -/
structure Cutoff where
  /-- How the value is to be read. -/
  measure : CutoffMeasure
  /-- Whether the silence comes before the note. -/
  leading : Bool
  /-- Eighths that sound, or frames that do not. -/
  value : Int
  deriving DecidableEq, Repr

namespace Cutoff

/-- Notes sound for their whole length unless a channel says otherwise. -/
def default : Cutoff := ⟨.eighths, false, 8⟩

instance : Inhabited Cutoff := ⟨default⟩

/-- Whether the value counts frames. -/
def isAbsolute (c : Cutoff) : Bool := c.measure == .frames

/-- The policies that scripts can name, with their tags. -/
def policies : List (String × CutoffMeasure × Bool) :=
  [("normal", .eighths, false), ("frames", .frames, false), ("negated", .eighths, true),
    ("negated_frames", .frames, true)]

/-- The tag of a cutoff's policy. -/
def policy (c : Cutoff) : String :=
  match c.measure, c.leading with
  | .eighths, false => "normal"
  | .frames, false => "frames"
  | .eighths, true => "negated"
  | .frames, true => "negated_frames"

/-- The cutoff with a given policy and value. -/
def ofPolicy? (tag : String) (value : Int) : Option Cutoff :=
  (policies.lookup tag).map fun p => ⟨p.1, p.2, value⟩

end Cutoff

/-- The frame rate of a driver and the precision of its delays. -/
structure FrameClock where
  /-- Screen refreshes in a second. -/
  refreshHz : Nat
  /-- Whether delays have eight fractional bits. -/
  fractional : Bool
  deriving DecidableEq, Repr, Inhabited

namespace FrameClock

/-- Units in a frame. -/
def scale (c : FrameClock) : Int := if c.fractional then 256 else 1

theorem scale_pos (c : FrameClock) : 0 < c.scale := by
  unfold scale; split <;> decide

end FrameClock

/-- The longest delay of one command: fourteen bits of frames, and the last fraction. -/
def maxLength (scale : Int) : Int := 0x3FFF * scale + (scale - 1)

theorem maxLength_pos {scale : Int} (h : 0 < scale) : 0 < maxLength scale := by
  unfold maxLength; omega

/-- What can be remarkable about a note's length. -/
inductive LengthRemark where
  /-- The sounding part is shorter than a frame. -/
  | tooShort
  /-- The sounding part was cut down to the longest delay. -/
  | clamped (requested : Int)
  deriving DecidableEq, Repr

/-- A note's length in units, split into its parts. -/
structure NoteLength where
  /-- The part that sounds. -/
  active : Int
  /-- The silent part. -/
  cutoff : Int
  /-- The length before it was split. -/
  total : Int
  /-- Units in a frame. -/
  scale : Int
  /-- What should be reported about it. -/
  remark : Option LengthRemark
  deriving DecidableEq, Repr

/-- Why a note has no length. -/
inductive LengthFault where
  /-- Time does not pass at tempo zero. -/
  | tempo
  /-- One of the parts would be shorter than nothing. -/
  | negative (active cutoff : Int)
  deriving DecidableEq, Repr

/-- The length of a tick at a tempo in quarter notes a minute, rounded down. A quarter note
has eight ticks. There is no answer at tempo zero. Products beyond 64 bits are outside the model. -/
def unitsPerTick? (tempo : Nat) (clock : FrameClock) : Option Int :=
  if tempo = 0 then none else some (clock.refreshHz * 60 * clock.scale / (tempo * 8))

/-- The silent part of a note of `total` units. -/
def Cutoff.units (c : Cutoff) (total scale : Int) : Int :=
  match c.measure with
  | .frames => min (c.value * scale) total
  | .eighths => total * (8 - c.value) / 8

/-- Splits a note of some ticks into its sounding and its silent part. Lengths beyond 64 bits are
outside the model, as are products of that size on the way to them. -/
def splitNote (ticks tempo : Nat) (clock : FrameClock) (cutoff : Cutoff) :
    Except LengthFault NoteLength :=
  match unitsPerTick? tempo clock with
  | none => .error .tempo
  | some perTick =>
    let total := perTick * ticks
    let cut := cutoff.units total clock.scale
    let active := total - cut
    let longest := maxLength clock.scale
    if active < 0 ∨ cut < 0 then
      .error (.negative active cut)
    else if longest < active then
      .ok ⟨longest, cut, total, clock.scale, some (.clamped active)⟩
    else
      .ok ⟨active, cut, total, clock.scale, if active < clock.scale then some .tooShort else none⟩

/-- Shares `total` units among the timed entries of a tuplet. Each gets the same, and the
first ones one more until nothing is left; untimed entries get nothing. -/
def distribute (total : Int) (timed : List Bool) : List Int :=
  let count : Int := timed.count true
  let share := total.tdiv count
  deal share (total - share * count) timed
where
  /-- Deals out `share` to each timed entry, and one unit of the rest while there is one. -/
  deal (share rest : Int) : List Bool → List Int
    | [] => []
    | false :: ts => 0 :: deal share rest ts
    | true :: ts =>
      if 0 < rest then (share + 1) :: deal share (rest - 1) ts else share :: deal share rest ts

end Chiptune
