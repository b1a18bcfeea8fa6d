import Chiptune.Channel.Event
import Chiptune.Record

/-!
# Songs

A song has a channel for each voice of a platform, and one for patterns.

## Main definitions

* `Song` — the channels of a song.
* `Song.new` — the channels of a platform, without events.
* `Song.onChannel?` — does something with a channel.
* `Song.finish` — ends every channel and compares their lengths.
* `Platform.packMacros` — gives macros the form that a platform wants.
-/

namespace Chiptune

/-- The channels of a song. -/
structure Song where
  /-- A channel for each voice. -/
  channels : List Channel
  /-- The channel that holds patterns. -/
  pattern : Channel

namespace Song

/-- The name of the channel that holds patterns. -/
def patternName : String := "pattern"

/-- The channels of a platform. -/
def new (p : Platform) (clock : FrameClock) (tempo : Nat) : Song where
  channels := p.voices.map fun v => .new v.1 (.physical v.2) clock tempo
  pattern := .new patternName .pattern clock tempo

/-- The channel of a voice. -/
def channel? (s : Song) (name : String) : Option Channel := s.channels.find? (·.name == name)

/-- The bytes of all voices. -/
def binarySize (s : Song) : Nat := (s.channels.map (·.data.size)).foldl (· + ·) 0

/-- The most ticks of a channel with notes. -/
def longest (s : Song) : Nat :=
  ((s.channels.filter (·.hasNotes)).map (·.ticks)).foldl max 0

end Song

/-- An operation on a song and its session. -/
abbrev Composing := EStateM Error (Song × Session)

namespace Song

/-- Does something with one of some channels, the first of that name. -/
def onFirst? {α : Type} (name : String) (act : Encoding α) (session : Session) :
    List Channel → Option (EStateM.Result Error (List Channel × Session) α)
  | [] => none
  | ch :: chs =>
    if ch.name == name then
      match act ⟨ch, session⟩ with
      | .ok a d => some (.ok a (d.channel :: chs, d.session))
      | .error e d => some (.error e (d.channel :: chs, d.session))
    else
      match onFirst? name act session chs with
      | some (.ok a (chs, session)) => some (.ok a (ch :: chs, session))
      | some (.error e (chs, session)) => some (.error e (ch :: chs, session))
      | none => none

/-- Does something with the pattern channel. -/
def onPattern {α : Type} (act : Encoding α) : Composing α := fun (song, session) =>
  match act ⟨song.pattern, session⟩ with
  | .ok a d => .ok a ({ song with pattern := d.channel }, d.session)
  | .error e d => .error e ({ song with pattern := d.channel }, d.session)

/-- Does something with a channel, if there is one of that name. -/
def onChannel? {α : Type} (name : String) (act : Encoding α) (song : Song) (session : Session) :
    Option (EStateM.Result Error (Song × Session) α) :=
  if song.pattern.name == name then some (onPattern act (song, session))
  else
    match onFirst? name act session song.channels with
    | some (.ok a (chs, session)) => some (.ok a ({ song with channels := chs }, session))
    | some (.error e (chs, session)) => some (.error e ({ song with channels := chs }, session))
    | none => none

/-- Does something with each of some channels, up to the first failure. -/
def onEach (act : Encoding Unit) (session : Session) :
    List Channel → EStateM.Result Error (List Channel × Session) Unit
  | [] => .ok () ([], session)
  | ch :: chs =>
    match act ⟨ch, session⟩ with
    | .error e d => .error e (d.channel :: chs, d.session)
    | .ok _ d =>
      match onEach act d.session chs with
      | .ok a (chs, session) => .ok a (d.channel :: chs, session)
      | .error e (chs, session) => .error e (d.channel :: chs, session)

/-- Does something with the channel of each voice. -/
def onVoices (act : Encoding Unit) : Composing Unit := fun (song, session) =>
  match onEach act session song.channels with
  | .ok a (chs, session) => .ok a ({ song with channels := chs }, session)
  | .error e (chs, session) => .error e ({ song with channels := chs }, session)

/-- Does something with the session. -/
def onSession {α : Type} (act : EStateM Error Session α) : Composing α := fun (song, session) =>
  match act session with
  | .ok a session => .ok a (song, session)
  | .error e session => .error e (song, session)

/-- Reports each channel with notes that is shorter than the longest one. -/
def reportLengths : Composing Unit := do
  let (song, _) ← get
  let expected := song.longest
  (song.channels.filter (·.hasNotes)).forM fun ch =>
    if ch.ticks = expected then pure ()
    else onSession (Session.warn (.lengthMismatch ch.name ch.ticks expected))

/-- Ends every channel, and reports those that are too short. -/
def finish : Composing Unit := do
  onVoices Encoding.finish
  onPattern Encoding.finish
  reportLengths

end Song

/-- The forms in which a platform wants the macros of some effects, in the order in which they are
made. -/
def Platform.packings : Platform → List (Effect × (ParamSeq → Except Error ParamSeq))
  | .sms => [(.adsr, Record.packSeq .ym2413 .adsr)]
  | .genesis =>
    [(.adsr, Record.packSeq .ym2612 .adsr), (.modulation, Record.packSeq .ym2612 .modulation)]
  | .x68000 =>
    [(.adsr, Record.packSeq .ym2151 .adsr), (.modulation, Record.packSeq .ym2151 .modulation)]
  | .c64 => [(.adsr, Record.packSeq .sid .adsr)]
  | .pce => [(.waveform, checkWaveform .huC6280)]
  | .nes | .cpc => []

/-- Gives the macros the form that a platform wants. -/
def Platform.packMacros (p : Platform) : EStateM Error Session Unit :=
  p.packings.forM fun (effect, form) => Session.onMacros effect (Registry.pack form)

end Chiptune
