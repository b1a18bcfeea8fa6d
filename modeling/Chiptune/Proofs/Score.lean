import Chiptune.Channel.Event
import Chiptune.Proofs.Driver
import Chiptune.Proofs.Sharing

/-!
# Scores

What the events of a channel mean, said without bytes, commands or a driver.  A note sounds in
the octave that is selected when it is entered.  Its length comes from its own ticks and those of
the ties after it, at the tempo and with the cutoff of its place in the score.  The sounds of a
tuplet share one length.

Reading a score goes from event to event.  The tones of an event depend on the events before it,
of which a `Reading` keeps what matters, and on the ties after it.

## Main definitions

* `Part` — a sound with its octave, before it has a length.
* `Tone.silence` — silence in pieces that are not longer than the longest delay.
* `Reading` — what the events so far mean for those to come.
* `Reading.score` — the tones of the events of a channel.

## Main results

* `Tone.duration_silence` — the pieces of a silence take the time that it is made from, no more
  and no less.
-/

namespace Chiptune

/-! ### Silence -/

namespace Tone

/-- Silence of `n` units: as many pieces of the longest delay as there is room for, and one piece
for what is left. -/
def silence (kind : Int → Tone) (longest n : Int) : List Tone :=
  List.replicate (n / longest).toNat (kind longest) ++
    if n % longest = 0 then [] else [kind (n % longest)]

theorem silence_zero (kind : Int → Tone) (longest : Int) : silence kind longest 0 = [] := by
  simp [silence]

/-- The first piece of a silence is as long as it can be. -/
theorem silence_step (kind : Int → Tone) {longest n : Int} (hl : 0 < longest) (hn : 0 < n) :
    silence kind longest n =
      kind (min n longest) :: silence kind longest (n - min n longest) := by
  rcases Int.lt_or_le n longest with hlt | hge
  · -- there is only one piece
    have hdiv : n / longest = 0 := Int.ediv_eq_zero_of_lt (by omega) hlt
    have hmod : n % longest = n := Int.emod_eq_of_lt (by omega) hlt
    rw [show min n longest = n by omega, Int.sub_self, silence_zero, silence, hdiv, hmod,
      if_neg (by omega)]
    rfl
  · -- after a piece of full length the rest has one such piece less
    have hdiv : (n - longest) / longest = n / longest - 1 := by
      rw [Int.sub_ediv_of_dvd _ (Int.dvd_refl longest), Int.ediv_self (by omega)]
    have hpos : 1 ≤ n / longest := by
      rw [Int.le_ediv_iff_mul_le hl]; omega
    rw [show min n longest = longest by omega, silence, silence, hdiv, Int.sub_emod_right,
      show (n / longest).toNat = (n / longest - 1).toNat + 1 by omega, List.replicate_succ]
    rfl

/-- **The pieces of a silence take the time that it is made from.** -/
theorem duration_silence {kind : Int → Tone} (hkind : ∀ n, (kind n).length = n) {longest n : Int}
    (hl : 0 < longest) (hn : 0 ≤ n) : duration (silence kind longest n) = n := by
  have hrest : duration (if n % longest = 0 then [] else [kind (n % longest)]) = n % longest := by
    split
    · next h => rw [h]; rfl
    · simp [hkind]
  have hfull : ∀ k : Nat, duration (List.replicate k (kind longest)) = k * longest := by
    intro k
    induction k with
    | zero => simp
    | succ k ih => rw [List.replicate_succ, duration_cons, hkind, ih]; grind
  have hcount : ((n / longest).toNat : Int) = n / longest :=
    Int.toNat_of_nonneg (Int.ediv_nonneg hn (Int.le_of_lt hl))
  rw [silence, duration_append, hfull, hrest, hcount, Int.mul_comm]
  exact Int.mul_ediv_add_emod n longest

end Tone

/-! ### Sounds -/

/-- A sound with its octave, before it has a length. -/
inductive Part where
  /-- A note of a pitch class in an octave. -/
  | note (pitch octave : Nat)
  /-- Silence. -/
  | rest
  /-- The last note, sounding on. -/
  | wait
  deriving DecidableEq, Repr

/-- The tones of a sound that takes `n` units.  A note is one tone, also if it takes no time. -/
def Part.tones (longest n : Int) : Part → List Tone
  | note pitch octave => [.note pitch octave n]
  | rest => Tone.silence .rest longest n
  | wait => Tone.silence .wait longest n

/-- A sound entered in an octave. -/
def Sound.part (octave : Nat) : Sound → Part
  | note pitch => .note pitch octave
  | rest => .rest
  | wait => .wait

/-! ### Reading events -/

/-- What the events so far mean for those to come. -/
structure Reading where
  /-- What plays the channel. -/
  voice : Voice
  /-- The frame clock of the driver. -/
  clock : FrameClock
  /-- The tempo in force. -/
  tempo : Nat
  /-- The cutoff in force. -/
  cutoff : Cutoff
  /-- The octave in force. -/
  octave : Int
  /-- Whether there is a sound that a tie would extend. -/
  held : Bool
  /-- The sounds of the open tuplet, if there is one. -/
  group : Option (List Part)

/-- Whether an event settles the length of the sound before it, so that later ties do not extend
that sound.  Patterns take no notice of tempo and cutoff, and a voice none of effects that it does
not know. -/
def Event.settles (voice : Voice) : Event → Bool
  | tie _ | octave _ | octaveUp | octaveDown => false
  | tempo _ | cutoff _ => !voice.isVirtual
  | effect e _ _ => voice.supports e
  | note _ _ | rest _ | wait _ | volume _ | tupletStart | tupletEnd _ | loopPoint | blockEnd
  | effectOff _ => true

/-- The ticks of a sound together with those of its ties, as far as ticks can be counted. -/
def heldTicks (voice : Voice) (ticks : Nat) : List Event → Nat
  | [] => ticks
  | .tie more :: es => heldTicks voice (min (ticks + more) PendingSound.maxTicks) es
  | e :: es => if e.settles voice then ticks else heldTicks voice ticks es

namespace Reading

/-- The start of a score. -/
def start (voice : Voice) (clock : FrameClock) (tempo : Nat) : Reading :=
  ⟨voice, clock, tempo, .default, 4, false, none⟩

/-- The longest delay of one command. -/
def longest (r : Reading) : Int := maxLength r.clock.scale

/-- Tones with the silent part of their length, on the side where that belongs. -/
def withCutoff (r : Reading) (cut : Int) (ts : List Tone) : List Tone :=
  if r.cutoff.leading then Tone.silence .rest r.longest cut ++ ts
  else ts ++ Tone.silence .rest r.longest cut

/-- The tones of a sound that stands alone. -/
def play (r : Reading) (part : Part) (ticks : Nat) : List Tone :=
  match part with
  | .note _ _ =>
    match splitNote ticks r.tempo r.clock r.cutoff with
    | .ok length => r.withCutoff length.cutoff (part.tones r.longest length.active)
    | .error _ => []
  | .rest | .wait =>
    match unitsPerTick? r.tempo r.clock with
    | some perTick => part.tones r.longest (perTick * ticks)
    | none => []

/-- The tones of a tuplet.  Without sounds it is a rest. -/
def playGroup (r : Reading) (parts : List Part) (ticks : Nat) : List Tone :=
  if parts = [] then r.play .rest ticks
  else
    match splitNote ticks r.tempo r.clock r.cutoff with
    | .ok length =>
      r.withCutoff length.cutoff
        (parts.zipIdx.flatMap fun (part, i) =>
          part.tones r.longest (share length.active parts.length i))
    | .error _ => []

/-- The tones of an event that is followed by the events `es`. -/
def tones (r : Reading) (e : Event) (es : List Event) : List Tone :=
  match r.group, e with
  | none, .note semitone ticks =>
    r.play (.note (semitone % 12).toNat r.octave.toNat) (heldTicks r.voice ticks es)
  | none, .rest ticks => r.play .rest (heldTicks r.voice ticks es)
  | none, .wait ticks => r.play .wait (heldTicks r.voice ticks es)
  | none, .tie ticks => if r.held then [] else r.play .wait (heldTicks r.voice ticks es)
  | some parts, .tupletEnd ticks => r.playGroup parts ticks
  | _, _ => []

/-- A sound is entered: into the open tuplet, or to be held. -/
def enter (r : Reading) (part : Part) : Reading :=
  match r.group with
  | none => { r with held := true }
  | some parts => { r with group := some (parts ++ [part]) }

/-- What an event changes for those after it. -/
def next (r : Reading) : Event → Reading
  | .note semitone _ => r.enter (.note (semitone % 12).toNat r.octave.toNat)
  | .rest _ => r.enter .rest
  | .wait _ => r.enter .wait
  | .tie _ => { r with held := r.group.isNone }
  | .octave n => { r with octave := n }
  | .octaveUp => { r with octave := r.octave + 1 }
  | .octaveDown => { r with octave := r.octave - 1 }
  | .tempo n => if r.voice.isVirtual then r else { r with tempo := n, held := false }
  | .cutoff c => if r.voice.isVirtual then r else { r with cutoff := c, held := false }
  | .tupletStart => { r with group := some [], held := false }
  | .tupletEnd _ => { r with group := none }
  | .effect e _ _ => if r.voice.supports e then { r with held := false } else r
  | .volume _ | .loopPoint | .blockEnd | .effectOff _ => { r with held := false }

/-- The tones of some events. -/
def score (r : Reading) : List Event → List Tone
  | [] => []
  | e :: es => r.tones e es ++ (r.next e).score es

end Reading

end Chiptune
