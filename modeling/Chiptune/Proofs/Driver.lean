import Chiptune.Channel.Basic
import Chiptune.Playback.Player
import Mathlib.Algebra.BigOperators.Group.List.Basic
import Mathlib.Algebra.Ring.Int.Defs

/-!
# What a driver makes of commands

A command alone does not say what is heard: a short form leaves out the delay, and no note says
its octave.  The driver supplies both from what it remembers.  Here the commands of a channel are
expanded into tones that say everything.

## Main definitions

* `Tone` — a note, a rest or a wait with all that is to be known about it.
* `Driver`, `Driver.after` — what a driver remembers, and how commands change it.
* `Driver.hear` — the tones of some commands.
* `Tone.duration` — the units that some tones take.

## Main results

* `Driver.hear_append` — tones of a stream in two parts; the second part starts with what the
  first one left in the driver.
* `Player.performAll_hear` — the player logs the notes that the driver is heard to play, and
  counts the units that they take.
-/

namespace Chiptune

/-- What is heard for some units. -/
inductive Tone where
  /-- A note of a pitch class in an octave. -/
  | note (pitch octave : Nat) (length : Int)
  /-- Silence. -/
  | rest (length : Int)
  /-- The last note, sounding on. -/
  | wait (length : Int)
  deriving DecidableEq, Repr

namespace Tone

/-- The units that a tone takes. -/
def length : Tone → Int
  | note _ _ n | rest n | wait n => n

/-- The pitch class and the octave of a note. -/
def key? : Tone → Option (Nat × Nat)
  | note pitch octave _ => some (pitch, octave)
  | rest _ | wait _ => none

/-- The units that some tones take together. -/
def duration (ts : List Tone) : Int := (ts.map length).sum

@[simp] theorem duration_nil : duration [] = 0 := rfl

@[simp] theorem duration_cons (t : Tone) (ts : List Tone) :
    duration (t :: ts) = t.length + duration ts := by
  simp [duration]

@[simp] theorem duration_append (ts ts' : List Tone) :
    duration (ts ++ ts') = duration ts + duration ts' := by
  simp [duration]

end Tone

/-- What a driver remembers between commands. -/
structure Driver where
  /-- The octave of the notes to come. -/
  octave : UInt8
  /-- The delay used before. -/
  length : Int
  deriving DecidableEq, Repr

namespace Driver

/-- A driver at the start of a channel. -/
def initial : Driver := ⟨.ofNat Channel.startOctave, 0⟩

/-- What a driver remembers after a command.  Octaves stop at both ends of a byte. -/
def after (d : Driver) : Command → Driver
  | .note _ n | .rest n | .wait n => { d with length := n }
  | .noteUp _ => { d with octave := if d.octave = 255 then 255 else d.octave + 1 }
  | .noteDown _ => { d with octave := if d.octave = 0 then 0 else d.octave - 1 }
  | .octave o => { d with octave := o }
  | _ => d

/-- The tone that a command plays, on a driver that has taken in what the command changes. -/
def tone? (d : Driver) : Command → Option Tone
  | .note p _ | .noteShort p | .noteUp p | .noteDown p =>
    some (.note p.toNat d.octave.toNat d.length)
  | .rest _ | .restShort => some (.rest d.length)
  | .wait _ | .waitShort => some (.wait d.length)
  | .octave _ | .volume _ | .effectOn _ _ | .effectOff _ | .jump _ | .stop => none

/-- What a driver remembers after some commands. -/
def run (d : Driver) (cs : List Command) : Driver := cs.foldl after d

/-- The tones that some commands play. -/
def hear (d : Driver) : List Command → List Tone
  | [] => []
  | c :: cs => ((d.after c).tone? c).toList ++ hear (d.after c) cs

@[simp] theorem run_nil (d : Driver) : d.run [] = d := rfl

@[simp] theorem run_cons (d : Driver) (c : Command) (cs : List Command) :
    d.run (c :: cs) = (d.after c).run cs := rfl

@[simp] theorem run_append (d : Driver) (cs cs' : List Command) :
    d.run (cs ++ cs') = (d.run cs).run cs' := List.foldl_append

@[simp] theorem hear_nil (d : Driver) : d.hear [] = [] := rfl

theorem hear_cons (d : Driver) (c : Command) (cs : List Command) :
    d.hear (c :: cs) = ((d.after c).tone? c).toList ++ (d.after c).hear cs := rfl

@[simp] theorem hear_singleton (d : Driver) (c : Command) :
    d.hear [c] = ((d.after c).tone? c).toList := by
  simp [hear]

/-- **The tones of a stream in two parts.** -/
@[simp] theorem hear_append (d : Driver) (cs cs' : List Command) :
    d.hear (cs ++ cs') = d.hear cs ++ (d.run cs).hear cs' := by
  induction cs generalizing d with
  | nil => rfl
  | cons c cs ih => simp only [List.cons_append, hear_cons, run_cons, ih, List.append_assoc]

/-- A command that ends the channel is not heard. -/
theorem hear_terminator {c : Command} (h : c.isTerminator = true) (d : Driver) :
    d.hear [c] = [] := by
  cases c with
  | jump _ | stop => rfl
  | _ => cases h

end Driver

/-! ### The player follows the driver -/

namespace Player

/-- What a player remembers of the commands before. -/
def driver (p : Player) : Driver := ⟨p.octave, p.length⟩

/-- The pitches and octaves of the notes that a player has logged. -/
def keys (p : Player) : List (Nat × Nat) :=
  p.notes.toList.map fun n => (n.pitch.toNat, n.octave.toNat)

private theorem soundOn_frame (n : Nat) (p : Player) :
    (soundOn n p).driver = p.driver ∧ (soundOn n p).notes = p.notes ∧
      (soundOn n p).elapsed = p.elapsed := by
  induction n generalizing p with
  | zero => exact ⟨rfl, rfl, rfl⟩
  | succ n ih =>
    simp only [soundOn]
    exact ih _

theorem sound_frame (p : Player) (n : Nat) :
    (p.sound n).driver = p.driver ∧ (p.sound n).notes = p.notes ∧
      (p.sound n).elapsed = p.elapsed := by
  cases n with
  | zero => exact ⟨rfl, rfl, rfl⟩
  | succ n => exact soundOn_frame n _

/-- A note is played with what the player remembers, as its tone says. -/
private theorem playNote_spec (p : Player) (pitch : UInt8) :
    (p.playNote pitch).driver = p.driver ∧
      (p.playNote pitch).keys = p.keys ++
        [Tone.note pitch.toNat p.octave.toNat p.length].filterMap Tone.key? ∧
      (p.playNote pitch).elapsed =
        p.elapsed + Tone.duration [.note pitch.toNat p.octave.toNat p.length] := by
  unfold playNote
  extract_lets begun after frames sounded
  obtain ⟨hd, hn, he⟩ := sound_frame after frames.toNat
  refine ⟨hd, ?_, ?_⟩
  · change (sounded.notes.push _).toList.map _ = _
    rw [show sounded.notes = p.notes from hn]
    simp [keys, Tone.key?]
  · rw [show sounded.elapsed = p.elapsed + p.length from he]
    simp [Tone.length]

private theorem enable_frame (p : Player) (effect : Effect) (operand : UInt8) (m : Macro) :
    (p.enable effect operand m).driver = p.driver ∧
      (p.enable effect operand m).notes = p.notes ∧
      (p.enable effect operand m).elapsed = p.elapsed := by
  unfold enable
  split
  · exact ⟨rfl, rfl, rfl⟩
  · split <;> exact ⟨rfl, rfl, rfl⟩

/-- What performing a command does to what the player remembers, to its notes and to its time. -/
theorem perform_hear {bank : MacroBank} {p p' : Player} {c : Command}
    (h : p.perform bank c = .ok p') :
    p'.driver = p.driver.after c ∧ p'.keys = p.keys ++ (p.driver.hear [c]).filterMap Tone.key? ∧
      p'.elapsed = p.elapsed + Tone.duration (p.driver.hear [c]) := by
  cases c with
  | note pitch n =>
    cases h
    exact playNote_spec { p with length := n } pitch
  | noteShort pitch =>
    cases h
    exact playNote_spec p pitch
  | noteUp pitch =>
    cases h
    exact playNote_spec { p with octave := if p.octave = 255 then 255 else p.octave + 1 } pitch
  | noteDown pitch =>
    cases h
    exact playNote_spec { p with octave := if p.octave = 0 then 0 else p.octave - 1 } pitch
  | rest n | wait n | restShort | waitShort =>
    cases h
    refine ⟨rfl, ?_, ?_⟩ <;>
      simp [keys, pass, Driver.tone?, Tone.key?, Tone.length, Driver.after, driver]
  | effectOn effect operand =>
    -- a macro that is not known stops the player; one that is known is silent by itself
    simp only [perform] at h
    split at h
    · next m hm =>
      cases h
      obtain ⟨hd, hn, he⟩ := enable_frame p effect operand m
      refine ⟨hd, ?_, ?_⟩ <;> simp [keys, hn, he, Driver.tone?]
    · cases h
  | octave _ | volume _ | effectOff _ | jump _ | stop =>
    cases h
    refine ⟨rfl, ?_, ?_⟩ <;> simp [keys, Driver.tone?, disable]

/-- **The player logs the notes that a driver is heard to play**, up to the end of the channel,
and counts the units that they take. -/
theorem performAll_hear {bank : MacroBank} : ∀ (cs : List Command) {p p' : Player},
    p.performAll bank cs = .ok p' →
      let tones := p.driver.hear (cs.takeWhile (!·.isTerminator))
      p'.keys = p.keys ++ tones.filterMap Tone.key? ∧
        p'.elapsed = p.elapsed + Tone.duration tones := by
  intro cs
  induction cs with
  | nil => intro p p' h; cases h; simp
  | cons c cs ih =>
    intro p p' h
    unfold performAll at h
    split at h
    · -- nothing after a terminator is played, and nothing of it is heard
      next hterm => cases h; simp [hterm]
    · next hterm =>
      split at h
      · next q hq =>
        obtain ⟨hd, hk, he⟩ := perform_hear hq
        obtain ⟨ihk, ihe⟩ := ih h
        have hcons : p.driver.hear ((c :: cs).takeWhile (!·.isTerminator)) =
            p.driver.hear [c] ++ q.driver.hear (cs.takeWhile (!·.isTerminator)) := by
          simp [hterm, hd, Driver.hear_cons]
        refine ⟨?_, ?_⟩
        · rw [hcons, ihk, hk, List.filterMap_append, List.append_assoc]
        · rw [hcons, ihe, he, Tone.duration_append, Int.add_assoc]
      · cases h

end Player

end Chiptune
