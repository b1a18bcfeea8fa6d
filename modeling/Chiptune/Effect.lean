/-!
# Effects

A sound driver shapes notes with fourteen kinds of effect. Each kind has its own
numbered macros, a short label under which its macros appear in assembly output,
a name for messages, and a tag under which scripts refer to it.

## Main definitions

* `Effect` — the kinds of effect, in the driver's numbering.
* `Effect.index`, `Effect.ofIndex?` — the driver's number of an effect and back.
* `EffectSet` — the effects that a voice supports or a channel has used.
-/

namespace Chiptune

/-- A kind of effect that macros can drive. -/
inductive Effect where
  /-- A sequence of semitone offsets. -/
  | arpeggio
  /-- A sequence of small detunings around the pitch. -/
  | vibrato
  /-- A sequence of volumes. -/
  | volume
  /-- A sequence of pulse widths or timbres. -/
  | duty
  /-- A sequence of stereo positions. -/
  | pan
  /-- A sequence of frequency steps. -/
  | pitch
  /-- Operator feedback. -/
  | feedback
  /-- A packed modulation record. -/
  | modulation
  /-- A packed envelope record. -/
  | adsr
  /-- Filter settings. -/
  | filter
  /-- A glide between notes. -/
  | portamento
  /-- One period of a sampled wave. -/
  | waveform
  /-- A sequence of waveforms. -/
  | waveformMacro
  /-- A recorded sample. -/
  | pcmSample
  deriving DecidableEq, Repr, Inhabited

namespace Effect

/-- Every effect, in the driver's numbering. -/
def all : List Effect :=
  [arpeggio, vibrato, volume, duty, pan, pitch, feedback, modulation, adsr, filter,
    portamento, waveform, waveformMacro, pcmSample]

/-- The driver's number of an effect. -/
def index : Effect → Fin 14
  | arpeggio => 0
  | vibrato => 1
  | volume => 2
  | duty => 3
  | pan => 4
  | pitch => 5
  | feedback => 6
  | modulation => 7
  | adsr => 8
  | filter => 9
  | portamento => 10
  | waveform => 11
  | waveformMacro => 12
  | pcmSample => 13

/-- The effect with a given driver number, if there is one. -/
def ofIndex? (n : Nat) : Option Effect := all[n]?

/-- The label that names an effect's tables in assembly output. -/
def label : Effect → String
  | arpeggio => "EN"
  | vibrato => "MP"
  | volume => "v"
  | duty => "DT"
  | pan => "CS"
  | pitch => "EP"
  | feedback => "FB"
  | modulation => "MOD"
  | adsr => "ADSR"
  | filter => "FT"
  | portamento => "PO"
  | waveform => "WT"
  | waveformMacro => "WTM"
  | pcmSample => "XPCM"

/-- The name of an effect in messages. -/
def name : Effect → String
  | arpeggio => "arpeggio"
  | vibrato => "vibrato"
  | volume => "volume"
  | duty => "duty"
  | pan => "pan"
  | pitch => "pitch"
  | feedback => "feedback"
  | modulation => "modulation"
  | adsr => "ADSR"
  | filter => "filter"
  | portamento => "portamento"
  | waveform => "waveform"
  | waveformMacro => "waveform macro"
  | pcmSample => "PCM sample"

/-- The tag of an effect in scripts and in structured output. -/
def tag : Effect → String
  | arpeggio => "arpeggio"
  | vibrato => "vibrato"
  | volume => "volume_macro"
  | duty => "duty_macro"
  | pan => "pan_macro"
  | pitch => "pitch_macro"
  | feedback => "feedback"
  | modulation => "modulation"
  | adsr => "adsr"
  | filter => "filter"
  | portamento => "portamento"
  | waveform => "waveform"
  | waveformMacro => "waveform_macro"
  | pcmSample => "pcm_sample"

/-- The effect with a given tag. -/
def ofTag? (s : String) : Option Effect := all.find? (·.tag == s)

theorem mem_all (e : Effect) : e ∈ all := by cases e <;> decide

@[simp] theorem ofIndex?_index (e : Effect) : ofIndex? e.index = some e := by cases e <;> rfl

theorem index_injective {a b : Effect} (h : a.index = b.index) : a = b := by
  have := congrArg (fun i : Fin 14 => ofIndex? i) h
  simpa using this

/-- The numbers in use are exactly those below fourteen. -/
theorem ofIndex?_eq_none_iff {n : Nat} : ofIndex? n = none ↔ 14 ≤ n := by
  simp [ofIndex?, all]

end Effect

/-- A set of effects. -/
structure EffectSet where
  /-- The members, in no particular order. -/
  members : List Effect
  deriving Repr

namespace EffectSet

/-- The set with no effect in it. -/
def empty : EffectSet := ⟨[]⟩

/-- Membership test. -/
def contains (s : EffectSet) (e : Effect) : Bool := s.members.contains e

/-- The set with one more member. -/
def insert (s : EffectSet) (e : Effect) : EffectSet :=
  if s.contains e then s else ⟨e :: s.members⟩

/-- The set without some of its members. -/
def without (s : EffectSet) (gone : List Effect) : EffectSet :=
  ⟨s.members.filter fun e => !gone.contains e⟩

/-- The members in the driver's numbering. -/
def toList (s : EffectSet) : List Effect := Effect.all.filter s.contains

/-- The set of the effects in a list. -/
def ofList (es : List Effect) : EffectSet := es.foldl insert empty

/-- Whether there is no member. -/
def isEmpty (s : EffectSet) : Bool := s.members.isEmpty

@[simp] theorem contains_empty (e : Effect) : empty.contains e = false := rfl

@[simp] theorem contains_insert (s : EffectSet) (a b : Effect) :
    (s.insert a).contains b = (a == b || s.contains b) := by
  unfold insert
  split
  · next h =>
    by_cases hab : a = b
    · subst hab; simp [h]
    · simp [hab]
  · simp only [contains, List.contains_cons, Bool.beq_comm (a := b)]

theorem mem_toList (s : EffectSet) (e : Effect) : e ∈ s.toList ↔ s.contains e = true := by
  simp [toList, Effect.mem_all]

end EffectSet

end Chiptune
