import Chiptune.Channel.Basic
import Chiptune.Session

/-!
# What events do to a channel

Sounds are written late: a sound waits until the next event, since a tie may make it longer.
So nearly every operation first writes the sound that is waiting.

Operations run in `EStateM` over a channel and its session. After a failure the state tells
what was done before it, and further operations go on from there.

## Main definitions

* `Desk`, `Encoding` — a channel with its session, and operations on them.
* `Encoding.flush` — writes the sound that is waiting.
* `Encoding.enter` — enters a sound.
* `Encoding.endTuplet` — writes a tuplet.
* `Encoding.finish` — ends a channel.
-/

namespace Chiptune

/-- A channel with the session around it. -/
structure Desk where
  /-- The channel. -/
  channel : Channel
  /-- What it shares with the other channels. -/
  session : Session

/-- An operation on a channel. -/
abbrev Encoding := EStateM Error Desk

namespace Encoding

/-- The channel as it is. -/
def channel : Encoding Channel := fun d => .ok d.channel d

/-- Changes the channel. -/
def modifyChannel (f : Channel → Channel) : Encoding Unit := fun d =>
  .ok () { d with channel := f d.channel }

/-- Does something with the session. -/
def onSession {α : Type} (act : EStateM Error Session α) : Encoding α := fun d =>
  match act d.session with
  | .ok a s => .ok a { d with session := s }
  | .error e s => .error e { d with session := s }

/-- Writes a warning into the journal. -/
def warn (w : Warning) : Encoding Unit := onSession (Session.warn w)

/-! ### How operations compose -/

section Compose

variable {α β : Type}

theorem bind_apply (x : Encoding α) (f : α → Encoding β) (d : Desk) :
    (x >>= f) d =
      match x d with
      | .ok a d' => f a d'
      | .error e d' => .error e d' := by
  change EStateM.bind x f d = _
  unfold EStateM.bind
  cases x d <;> rfl

@[simp] theorem pure_apply (a : α) (d : Desk) : (pure a : Encoding α) d = .ok a d := rfl

@[simp] theorem throw_apply (e : Error) (d : Desk) : (throw e : Encoding α) d = .error e d := rfl

@[simp] theorem channel_bind (f : Channel → Encoding β) (d : Desk) :
    (channel >>= f) d = f d.channel d := rfl

@[simp] theorem modifyChannel_apply (f : Channel → Channel) (d : Desk) :
    modifyChannel f d = .ok () { d with channel := f d.channel } := rfl

@[simp] theorem modifyChannel_bind (f : Channel → Channel) (g : Unit → Encoding β) (d : Desk) :
    (modifyChannel f >>= g) d = g () { d with channel := f d.channel } := rfl

end Compose

/-! ### Lengths -/

/-- Reports what is remarkable about a length. -/
def remark (name : String) (length : NoteLength) : Encoding Unit :=
  match length.remark with
  | none => pure ()
  | some .tooShort => warn (.noteTooShort name length.active length.scale)
  | some (.clamped requested) => warn (.noteTooLong name requested (maxLength length.scale))

/-- The length of a note or tuplet, split by the channel's cutoff. A length that is remarkable
is reported. -/
def noteLength (ticks : Nat) : Encoding NoteLength := do
  let ch ← channel
  match splitNote ticks ch.tempo ch.clock ch.cutoff with
  | .error .tempo => throw (.invalidTempo ch.tempo)
  | .error (.negative active cutoff) => throw (.negativeLength ch.name active cutoff)
  | .ok length =>
    remark ch.name length
    pure length

/-- The length of a rest or wait. -/
def silenceLength (ticks : Nat) : Encoding Int := do
  let ch ← channel
  match unitsPerTick? ch.tempo ch.clock with
  | none => throw (.invalidTempo ch.tempo)
  | some perTick => pure (perTick * ticks)

/-! ### Sounds -/

/-- Writes a sound that was waiting. -/
def writePending (p : PendingSound) : Encoding Unit :=
  match p.sound with
  | .note pitch => do
    let length ← noteLength p.ticks
    modifyChannel fun ch =>
      ch.writeWithCutoff length.cutoff (·.writeNote pitch p.octave length.active)
  | sound => do
    let length ← silenceLength p.ticks
    modifyChannel (·.writeSilence sound length)

/-- Writes the sound that is waiting. It is gone, and its ticks are counted, even if it cannot be
written. -/
def flush : Encoding Unit := do
  let ch ← channel
  match ch.pending with
  | none => pure ()
  | some p =>
    modifyChannel (·.dequeue p)
    writePending p

/-- Enters a sound. In a tuplet it becomes an entry, with a marker for the octave before a note;
elsewhere it waits, and the one before it is written. -/
def enter (sound : Sound) (ticks : Nat) : Encoding Unit := do
  modifyChannel (·.notice sound)
  let ch ← channel
  if ch.inTuplet then
    modifyChannel (·.addEntry sound)
  else
    flush
    modifyChannel (·.enqueue sound ticks)

/-- Makes the sound that is waiting longer. If there is none, the time is a wait. -/
def tie (ticks : Nat) : Encoding Unit := do
  let ch ← channel
  if ch.inTuplet then
    warn (.tieInTuplet ch.name)
  else
    match ch.pending with
    | some p => modifyChannel fun ch => { ch with pending := some (p.extend ticks) }
    | none => enter .wait ticks

/-- Writes a change of octave on its own. -/
def flushOctave : Encoding Unit := do
  flush
  modifyChannel fun ch => ch.emitOctave ch.octave

/-! ### Settings -/

/-- Sets the tempo. Patterns have none of their own. -/
def setTempo (tempo : Nat) : Encoding Unit := do
  let ch ← channel
  if ch.isVirtual then
    pure ()
  else if tempo = 0 then
    throw (.invalidTempo tempo)
  else
    flush
    modifyChannel fun ch => { ch with tempo := tempo }

/-- Sets the cutoff. Patterns have none of their own. -/
def setCutoff (cutoff : Cutoff) : Encoding Unit := do
  let ch ← channel
  if ch.isVirtual then
    pure ()
  else
    flush
    modifyChannel fun ch => { ch with cutoff := cutoff }

/-- Sets the octave of the notes to come. -/
def setOctave (n : Int) : Encoding Unit := do
  let ch ← channel
  if h : (ch.voice.minOctave.val : Int) ≤ n ∧ n ≤ ch.voice.maxOctave.val then
    let octave : Octave := ⟨n.toNat, by have := ch.voice.maxOctave.isLt; omega⟩
    modifyChannel fun ch => { ch with octave := octave }
  else
    throw (.outOfRange ch.name "octave" n ch.voice.minOctave.val ch.voice.maxOctave.val)

/-- Goes some octaves up, or down if `steps` is negative. -/
def shiftOctave (steps : Int) : Encoding Unit := do
  let ch ← channel
  setOctave (ch.octave.val + steps)

/-- Sets the volume. -/
def setVolume (n : Int) : Encoding Unit := do
  let ch ← channel
  if 0 ≤ n ∧ n ≤ ch.voice.maxVolume.toNat then
    flush
    modifyChannel (·.emitVolume (.ofNat n.toNat))
  else
    throw (.outOfRange ch.name "volume" n 0 ch.voice.maxVolume.toNat)

/-! ### Tuplets -/

/-- Opens a tuplet. -/
def beginTuplet : Encoding Unit := do
  let ch ← channel
  if ch.inTuplet then
    throw (.tupletAlreadyOpen ch.name)
  else
    flush
    modifyChannel fun ch => { ch with tuplet := some #[] }

/-- Writes the entries of a tuplet, its sounds sharing the length of some ticks. A tuplet
without sounds is a rest. -/
def writeTuplet (entries : List TupletEntry) (ticks : Nat) : Encoding Unit := do
  modifyChannel fun ch => { ch with ticks := ch.ticks + ticks }
  if entries.any (·.isTimed) then
    let length ← noteLength ticks
    modifyChannel fun ch =>
      ch.writeWithCutoff length.cutoff (·.writeEntries entries length.active)
  else
    modifyChannel fun ch => ch.writeEntries entries 0
    let length ← silenceLength ticks
    modifyChannel (·.writeSilence .rest length)

/-- Closes the open tuplet and writes it. It is closed even if it cannot be written. -/
def endTuplet (ticks : Nat) : Encoding Unit := do
  let ch ← channel
  match ch.tuplet with
  | none => throw (.tupletNotOpen ch.name)
  | some entries =>
    modifyChannel fun ch => { ch with tuplet := none }
    writeTuplet entries.toList ticks

/-! ### Loops, effects and the end -/

/-- Marks the place to which the channel jumps back at its end. -/
def setLoopPoint : Encoding Unit := do
  let ch ← channel
  if ch.inTuplet then
    throw (.tupletAlreadyOpen ch.name)
  else
    flush
    modifyChannel (·.markLoop)

/-- The bit of a macro operand that makes the macro step with each note instead of each frame. -/
def everyNoteFlag : UInt8 := 0x80

/-- The operand that selects a macro. -/
def macroOperand (key : Nat) (everyNote : Bool) : UInt8 :=
  .ofNat key ||| (if everyNote then everyNoteFlag else 0)

/-- Switches a macro on. A voice that does not know the effect does nothing. -/
def useEffect (effect : Effect) (key : Nat) (everyNote : Bool) : Encoding Unit := do
  let ch ← channel
  if ch.voice.supports effect then
    onSession (Session.onMacros effect (Registry.addRef key))
    flush
    modifyChannel (·.emitEffect effect (macroOperand key everyNote))
  else
    warn (.unsupportedEffect ch.name effect)

/-- Switches an effect off. -/
def disableEffect (effect : Effect) : Encoding Unit := do
  flush
  modifyChannel (·.emit (.effectOff effect))

/-- Writes the end of a channel without open sounds. -/
def terminate : Encoding Unit := do
  let ch ← channel
  if ch.inTuplet then
    throw (.unterminatedTuplet ch.name)
  else
    match ch.terminator with
    | .ok last => modifyChannel fun ch => { ch.write last with finished := true }
    | .error offset => throw (.loopTooFar ch.name offset)

/-- Ends the channel with a jump to its loop point, or for good. A channel ends once. -/
def finish : Encoding Unit := do
  let ch ← channel
  if ch.finished then
    pure ()
  else
    flush
    terminate

end Encoding

end Chiptune
