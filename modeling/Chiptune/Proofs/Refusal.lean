import Chiptune.Proofs.Independence
import Chiptune.Proofs.Legible

/-!
# Refused events write nothing

Nearly every event first writes the sound that is waiting, and the end of a tuplet writes many
sounds.  If an event is refused on the way, nothing of that has reached the stream: lengths are
found before the first byte that depends on them.  The one length that is found later is that of a
tuplet without sounds, after its markers, and it is always found, since time never stops on a
channel.

What a refused event can take away is the sound that was waiting, and the end of a tuplet takes the
tuplet away.

## Main definitions

* `Channel.Reachable` — the channels that events lead to, accepted or refused.
* `Channel.Unwritten` — a channel with the stream of another one and all that is in force on it.

## Main results

* `Channel.Reachable.running` — time passes on every channel that events lead to.
* `Refused.unwritten` — a refused event leaves the stream and the settings alone.
* `apply_error_writes_nothing` — so an event that fails writes nothing.
-/

namespace Chiptune

namespace Channel

/-- The channels that events lead to from a new one.  An event may be accepted or refused, and it
finds any session, since other channels use the session in between. -/
inductive Reachable (name : String) (voice : Voice) (clock : FrameClock) (tempo : Nat) :
    Channel → Prop
  /-- A new channel. -/
  | new : Reachable name voice clock tempo (.new name voice clock tempo)
  /-- What an event leaves behind. -/
  | attempt {ch : Channel} (h : Reachable name voice clock tempo ch) (e : Event) (s : Session) :
      Reachable name voice clock tempo (e.attempt ⟨ch, s⟩).channel

/-- `ch'` has the stream of `ch`, and on it is in force what is in force on `ch`. -/
structure Unwritten (ch ch' : Channel) : Prop where
  /-- The bytes. -/
  data : ch'.data = ch.data
  /-- The units written so far. -/
  elapsed : ch'.elapsed = ch.elapsed
  /-- The delay that the driver has. -/
  lastLength : ch'.lastLength = ch.lastLength
  /-- The octave that the driver has. -/
  driverOctave : ch'.driverOctave = ch.driverOctave
  /-- The octave in which notes are entered. -/
  octave : ch'.octave = ch.octave
  /-- The tempo. -/
  tempo : ch'.tempo = ch.tempo
  /-- The cutoff. -/
  cutoff : ch'.cutoff = ch.cutoff
  /-- The volume. -/
  volume : ch'.volume = ch.volume
  /-- The place to jump back to, with the ticks before it. -/
  loopPoint : ch'.loopPoint = ch.loopPoint
  /-- The effects that were switched on. -/
  effectsUsed : ch'.effectsUsed = ch.effectsUsed

end Channel

/-! ### Refused events -/

section Refused

variable {ch ch' : Channel} {e : Event}

/-- **A refused event leaves the stream and the settings alone**, where time passes. -/
theorem Refused.unwritten (h : Refused ch e ch') (htempo : 0 < ch.tempo) : ch.Unwritten ch' := by
  cases h with
  | same | lost | lostNoticed | tuplet =>
    exact ⟨rfl, rfl, rfl, rfl, rfl, rfl, rfl, rfl, rfl, rfl⟩
  | untimed ht hu hper =>
    -- the markers would be written, but the length after them is there
    obtain ⟨perTick, hsome⟩ := unitsPerTick?_isSome htempo ch.clock
    rw [hsome] at hper
    cases hper

/-- Only the end of a tuplet that is open takes the tuplet away. -/
theorem Refused.tuplet_eq (h : Refused ch e ch')
    (he : ch.tuplet = none ∨ ∀ ticks, e ≠ .tupletEnd ticks) : ch'.tuplet = ch.tuplet := by
  cases h with
  | same | lost | lostNoticed => rfl
  | tuplet ht | untimed ht =>
    rcases he with hnone | he
    · rw [hnone] at ht
      cases ht
    · exact absurd rfl (he _)

/-- The end of a tuplet that is open takes the tuplet away also if it fails, and nothing else
happens. -/
theorem Encoding.endTuplet_eq_error {d d' : Desk} {entries : Array TupletEntry} {ticks : Nat}
    {err : Error} (ht : d.channel.tuplet = some entries) (htempo : 0 < d.channel.tempo)
    (h : endTuplet ticks d = .error err d') : d'.channel = d.channel.closeTuplet ticks := by
  rw [endTuplet_apply ht] at h
  split at h
  · rcases noteLength_cases ticks ⟨d.channel.closeTuplet ticks, d.session⟩ with
      ⟨length, -, hlength⟩ | ⟨err', hlength⟩
    · simp only [bind_apply, hlength, modifyChannel_apply, reduceCtorEq] at h
    · simp only [bind_apply, hlength] at h
      cases h
      rfl
  · -- the length of a rest is found, whatever was written before it
    have hframe := Channel.offStream_writeEntries (d.channel.closeTuplet ticks) entries.toList 0
    have hlate : ((d.channel.closeTuplet ticks).writeEntries entries.toList 0).tempo =
        d.channel.tempo := congrArg (·.tempo) hframe
    rcases silenceLength_cases ticks
        ⟨(d.channel.closeTuplet ticks).writeEntries entries.toList 0, d.session⟩ with
      ⟨perTick, -, hlength⟩ | ⟨hper, -⟩
    · simp only [bind_apply, modifyChannel_apply, hlength, reduceCtorEq] at h
    · obtain ⟨perTick, hsome⟩ := unitsPerTick?_isSome (hlate ▸ htempo)
        ((d.channel.closeTuplet ticks).writeEntries entries.toList 0).clock
      rw [hsome] at hper
      cases hper

end Refused

/-! ### Channels that events lead to -/

namespace Channel

variable {ch : Channel} {name : String} {voice : Voice} {clock : FrameClock} {tempo : Nat}

/-- No event stops the time, accepted or refused. -/
theorem Running.attempt (h : ch.Running name clock) (e : Event) (s : Session) :
    (e.attempt ⟨ch, s⟩).channel.Running name clock := by
  unfold Event.attempt
  rcases Event.apply_cases e ⟨ch, s⟩ with ⟨ws, ch₁, s₁, hacc, hr, -⟩ | ⟨err, ch₁, s₁, href, hr⟩
  · rw [hr]
    obtain ⟨perTick, hper⟩ := unitsPerTick?_isSome h.tempo clock
    exact ((Moved.event hacc).keepsTime h hper).2.1
  · rw [hr]
    obtain ⟨ho, ⟨cs, hext⟩, -⟩ := href.extended h.orderly
    have htempo : ch₁.tempo = ch.tempo := (href.unwritten h.tempo).tempo
    have hname : ch₁.name = ch.name := congrArg Prod.fst href.seat_eq
    exact ⟨ho, hname.trans h.name, hext.clock.trans h.clock, htempo ▸ h.tempo⟩

/-- **Time passes on every channel that events lead to**, and its tuplet is in order. -/
theorem Reachable.running (h : Reachable name voice clock tempo ch) (htempo : 0 < tempo) :
    ch.Running name clock := by
  induction h with
  | new => exact running_new name voice clock htempo
  | attempt _ e s ih => exact ih.attempt e s

/-- Events one after the other lead to a channel that is reachable. -/
theorem Reachable.attemptAll (events : List Event) {d : Desk}
    (h : Reachable name voice clock tempo d.channel) :
    Reachable name voice clock tempo (attemptAll events d).channel := by
  induction events generalizing d with
  | nil => exact h
  | cons e events ih => exact ih (h.attempt e d.session)

end Channel

/-- **An event that fails writes nothing.**  On every channel that events lead to from a new one,
accepted or refused, and in every session, strict or not: if an event fails, then the bytes, the
time, what is known of the driver, the settings and the loop point are as they were before.  So is
the open tuplet, or that there is none; only the end of a tuplet that was open leaves none behind,
and no sound waits then. -/
theorem apply_error_writes_nothing {name : String} {voice : Voice} {clock : FrameClock}
    {tempo : Nat} (htempo : 1 ≤ tempo) {ch : Channel}
    (hreach : Channel.Reachable name voice clock tempo ch) {s : Session} {e : Event} {err : Error}
    {d' : Desk} (h : e.apply ⟨ch, s⟩ = .error err d') :
    ch.Unwritten d'.channel ∧
      (ch.inTuplet = true ∧ (∃ ticks, e = .tupletEnd ticks) →
        d'.channel.tuplet = none ∧ d'.channel.pending = none) ∧
      (¬(ch.inTuplet = true ∧ ∃ ticks, e = .tupletEnd ticks) →
        d'.channel.tuplet = ch.tuplet) := by
  have hrun := hreach.running htempo
  rcases Event.apply_cases e ⟨ch, s⟩ with ⟨ws, ch₁, s₁, -, hr, -⟩ | ⟨err', ch₁, s₁, href, hr⟩
  · cases hr.symm.trans h
  · cases hr.symm.trans h
    refine ⟨href.unwritten hrun.tempo, ?_, fun hother => ?_⟩
    · rintro ⟨hopen, ticks, rfl⟩
      obtain ⟨entries, ht⟩ := Option.isSome_iff_exists.mp hopen
      have hclosed : ch₁ = ch.closeTuplet ticks := Encoding.endTuplet_eq_error ht hrun.tempo h
      rw [hclosed]
      -- beside the tuplet no sound was waiting
      exact ⟨rfl, hrun.orderly.alone.resolve_left (by simp [ht])⟩
    · by_cases hopen : ch.inTuplet = true
      · exact href.tuplet_eq (Or.inr fun ticks he => hother ⟨hopen, ticks, he⟩)
      · exact href.tuplet_eq (Or.inl (by simpa [Channel.inTuplet] using hopen))

/-- A tuplet is too short to be heard, which a strict session does not tolerate.  The tuplet is lost
with the markers in it, and nothing of it was written.  Other events were refused before. -/
theorem apply_error_writes_nothing_tuplet :
    let strict : Session := .new { Options.default with warningsAsErrors := true }
    let ch := (attemptAll
      [.octave 3, .note 0 24, .tempo 0, .tie 12, .loopPoint, .octave 99, .tupletStart, .note 4 0,
        .volume 7, .octaveUp, .note 7 0]
      ⟨.new "A" (.physical (Chip.capabilities .sid)) ⟨60, true⟩ 120, strict⟩).channel
    ∃ err d', (Event.tupletEnd 0).apply ⟨ch, strict⟩ = .error err d' ∧
      d'.channel.data.toList = [0x13, 0x00, 0x81, 0x07, 0x00] ∧
      d'.channel.loopPoint = some ⟨5, 36⟩ ∧ ch.inTuplet = true ∧ d'.channel.tuplet = none ∧
      d'.channel.pending = none := by
  intro strict ch
  have hreach : Channel.Reachable "A" (.physical (Chip.capabilities .sid)) ⟨60, true⟩ 120 ch :=
    .attemptAll _ .new
  have hfails : (Event.tupletEnd 0).apply.succeeds ⟨ch, strict⟩ = false := by decide +kernel
  have hdata : ch.data.toList = [0x13, 0x00, 0x81, 0x07, 0x00] := by decide +kernel
  have hloop : ch.loopPoint = some ⟨5, 36⟩ := by decide +kernel
  have hopen : ch.inTuplet = true := by decide +kernel
  cases hr : (Event.tupletEnd 0).apply ⟨ch, strict⟩ with
  | ok a d' => simp [Encoding.succeeds, hr] at hfails
  | error err d' =>
    obtain ⟨hsame, hclosed, -⟩ := apply_error_writes_nothing (by decide) hreach hr
    obtain ⟨htuplet, hpending⟩ := hclosed ⟨hopen, 0, rfl⟩
    refine ⟨err, d', rfl, ?_, hsame.loopPoint.trans hloop, hopen, htuplet, hpending⟩
    rw [hsame.data, hdata]

end Chiptune
