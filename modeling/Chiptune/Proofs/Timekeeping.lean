import Chiptune.Proofs.Following

/-!
# A channel keeps the time of its ticks

A channel counts ticks when sounds are written, and it counts the units of the commands that it
writes for them.  Every tick takes the same number of units as long as the tempo does not change,
so the two counts go together: no unit is lost in rounding, in the silent part of a note, in the
shares of a tuplet or in the pieces of a long silence.  The one exception is a note that is cut down
to the longest delay, and a warning says by how much.

## Main definitions

* `Channel.KeepsTime` — the units that were added are those of the ticks that were added.

## Main results

* `Reading.duration_play`, `Reading.duration_playGroup` — the time that sounds and tuplets take.
* `Flushed.keepsTime`, `Accepted.keepsTime` — writing the sound that is waiting keeps time, and so
  does every accepted event.
-/

namespace Chiptune

/-! ### The time of tones -/

/-- Tones of `n` units take `n` units. -/
theorem Part.duration_tones {longest n : Int} (hl : 0 < longest) (hn : 0 ≤ n) (part : Part) :
    Tone.duration (part.tones longest n) = n := by
  cases part with
  | note pitch octave => simp [tones, Tone.length]
  | rest => exact Tone.duration_silence (fun _ => rfl) hl hn
  | wait => exact Tone.duration_silence (fun _ => rfl) hl hn

/-- Some sounds take the time that is dealt out to them. -/
theorem duration_flatMap_tones {longest : Int} (hl : 0 < longest) {f : Nat → Int} :
    ∀ (sounds : List Part) (i : Nat), (∀ j, j < i + sounds.length → 0 ≤ f j) →
    Tone.duration ((sounds.zipIdx i).flatMap fun (part, j) => part.tones longest (f j)) =
      (spread f i (List.replicate sounds.length true)).sum := by
  intro sounds
  induction sounds with
  | nil => intro i _; rfl
  | cons part sounds ih =>
    intro i h
    have hi : 0 ≤ f i := h i (by simp)
    have hrest := ih (i + 1) fun j hj => h j (by rw [List.length_cons]; omega)
    simp only [List.zipIdx_cons, List.flatMap_cons, Tone.duration_append, hrest,
      Part.duration_tones hl hi, List.length_cons, List.replicate_succ, spread, List.sum_cons]

/-- The shares of the sounds of a tuplet are the time of the tuplet. -/
theorem duration_shares {longest total : Int} (hl : 0 < longest) (h0 : 0 ≤ total)
    {sounds : List Part} (hne : sounds ≠ []) :
    Tone.duration (sounds.zipIdx.flatMap fun (part, i) =>
      part.tones longest (share total sounds.length i)) = total := by
  have hcount : (List.replicate sounds.length true).count true = sounds.length := by simp
  have hmem : true ∈ List.replicate sounds.length true := by simpa using hne
  have hshares := distribute_eq_spread h0 (List.replicate sounds.length true)
  rw [hcount] at hshares
  have hdealt := duration_flatMap_tones hl (f := share total sounds.length) sounds 0
    fun j hj => (share_bounds h0 (by omega)).1
  rw [hdealt, ← hshares]
  exact sum_distribute h0 hmem

namespace Reading

variable {r : Reading} {ticks : Nat}

theorem longest_pos (r : Reading) : 0 < r.longest := maxLength_pos r.clock.scale_pos

theorem duration_withCutoff {cut : Int} (hcut : 0 ≤ cut) (ts : List Tone) :
    Tone.duration (r.withCutoff cut ts) = Tone.duration ts + cut := by
  have hsilence : Tone.duration (Tone.silence .rest r.longest cut) = cut :=
    Tone.duration_silence (fun _ => rfl) r.longest_pos hcut
  unfold withCutoff
  split
  · rw [Tone.duration_append, hsilence, Int.add_comm]
  · rw [Tone.duration_append, hsilence]

/-- A note takes the parts of its length. -/
theorem duration_play {length : NoteLength}
    (hlen : splitNote ticks r.tempo r.clock r.cutoff = .ok length) (pitch octave : Nat) :
    Tone.duration (r.play (.note pitch octave) ticks) = length.active + length.cutoff := by
  obtain ⟨-, -, h0, -, hcut, -⟩ := splitNote_parts hlen ""
  simp only [play, hlen, duration_withCutoff hcut, Part.duration_tones r.longest_pos h0]

/-- Silence takes the time of its ticks. -/
theorem duration_play_silence {perTick : Int}
    (hper : unitsPerTick? r.tempo r.clock = some perTick) {part : Part}
    (hpart : part = .rest ∨ part = .wait) :
    Tone.duration (r.play part ticks) = perTick * ticks := by
  have h0 : 0 ≤ perTick * ticks := Int.mul_nonneg (unitsPerTick?_nonneg hper) (by omega)
  rcases hpart with rfl | rfl
  · simp only [play, hper, Part.duration_tones r.longest_pos h0]
  · simp only [play, hper, Part.duration_tones r.longest_pos h0]

/-- A tuplet takes the parts of its length, however many sounds share it. -/
theorem duration_playGroup {length : NoteLength}
    (hlen : splitNote ticks r.tempo r.clock r.cutoff = .ok length) {sounds : List Part}
    (hne : sounds ≠ []) :
    Tone.duration (r.playGroup sounds ticks) = length.active + length.cutoff := by
  obtain ⟨-, -, h0, -, hcut, -⟩ := splitNote_parts hlen ""
  rw [playGroup, if_neg hne]
  simp only [hlen, duration_withCutoff hcut, duration_shares r.longest_pos h0 hne]

end Reading

/-! ### The time of operations -/

/-- From `ch` to `ch'` the channel has counted ticks of `perTick` units, and it has counted the
units of these ticks, less those that the warnings `ws` report as lost. -/
structure Channel.KeepsTime (ch : Channel) (perTick : Int) (ws : List Warning) (ch' : Channel) :
    Prop where
  /-- The name, by which warnings tell the channels apart. -/
  name : ch'.name = ch.name
  /-- The units of the ticks. -/
  elapsed : ch'.elapsed - ch.elapsed =
    perTick * ((ch'.ticks : Int) - ch.ticks) - Warning.losses ch.name ws

namespace Channel

variable {ch ch' ch'' : Channel} {perTick : Int} {ws : List Warning}

/-- Nothing was counted, and nothing is lost. -/
theorem KeepsTime.of_eq (hname : ch'.name = ch.name) (helapsed : ch'.elapsed = ch.elapsed)
    (hticks : ch'.ticks = ch.ticks) (hws : Warning.losses ch.name ws = 0) :
    KeepsTime ch perTick ws ch' := by
  refine ⟨hname, ?_⟩
  rw [helapsed, hticks, hws]
  simp

/-- What does not count can be changed. -/
theorem KeepsTime.congr (h : KeepsTime ch perTick ws ch') (hname : ch''.name = ch'.name)
    (helapsed : ch''.elapsed = ch'.elapsed) (hticks : ch''.ticks = ch'.ticks) :
    KeepsTime ch perTick ws ch'' := by
  refine ⟨hname.trans h.name, ?_⟩
  rw [helapsed, hticks]
  exact h.elapsed

/-- Settings and entries of tuplets do not count. -/
theorem KeepsTime.congr_offMarks (h : KeepsTime ch perTick ws ch')
    (hframe : ch''.offMarks = ch'.offMarks) : KeepsTime ch perTick ws ch'' :=
  h.congr (congrArg (·.name) hframe) (congrArg (·.elapsed) hframe) (congrArg (·.ticks) hframe)

/-- There is a driver of which the channel's expectations are true. -/
theorem exists_driver (ch : Channel) :
    ∃ d : Driver, ch.KnowsLength d ∧ ch.KnowsOctave d.octave := by
  refine ⟨⟨.ofNat (ch.driverOctave.getD 0), ch.lastLength.getD 0⟩, ?_, ?_⟩
  · intro n hn
    simp [hn]
  · intro k hk
    simp [hk]

end Channel

/-- What is counted when the sound that was waiting is written: the time of its tones, and its
ticks. -/
theorem Flushed.counts {ch ch' : Channel} {ws : List Warning} (h : Flushed ch ws ch') :
    ch'.name = ch.name ∧
      ch'.elapsed = ch.elapsed + Tone.duration ((ch.reading none).owed ch.pending []) ∧
      ch'.ticks = ch.ticks + ch.pending.elim 0 (·.ticks) := by
  -- the units do not depend on the driver, so one that the channel expects tells them
  obtain ⟨d, hlength, hoctave⟩ := ch.exists_driver
  obtain ⟨cs, happ, hplay⟩ := h.plays none
  have hsettled : ch.settled.name = ch.name ∧ ch.settled.elapsed = ch.elapsed ∧
      ch.settled.ticks = ch.ticks + ch.pending.elim 0 (·.ticks) ∧ ch.settled.KnowsLength d := by
    unfold Channel.settled
    cases hp : ch.pending with
    | none => exact ⟨rfl, rfl, rfl, hlength⟩
    | some p => exact ⟨rfl, rfl, rfl, hlength⟩
  obtain ⟨hname, helapsed, hticks, hknows⟩ := hsettled
  have hname' : ch'.name = ch.settled.name := congrArg (·.name) happ.offStream
  have hticks' : ch'.ticks = ch.settled.ticks := congrArg (·.ticks) happ.offStream
  refine ⟨hname'.trans hname, ?_, hticks'.trans hticks⟩
  rw [happ.elapsed d hknows, helapsed, (hplay d hlength hoctave).1]

/-- **The sound that was waiting takes the time of its ticks.** -/
theorem Flushed.keepsTime {ch ch' : Channel} {ws : List Warning} (h : Flushed ch ws ch')
    {perTick : Int} (hper : unitsPerTick? ch.tempo ch.clock = some perTick) :
    ch.KeepsTime perTick ws ch' := by
  obtain ⟨hname, helapsed, hticks⟩ := h.counts
  refine ⟨hname, ?_⟩
  rw [helapsed, hticks]
  cases h with
  | idle hp => simp [hp, Reading.owed]
  | @note p pitch length hp hs hlen =>
    -- both parts of the length count, and what was cut down is in the warning
    obtain ⟨perTick', hper', -, -, -, hsum⟩ := splitNote_parts hlen ch.name
    rw [hper] at hper'
    cases hper'
    have htime : Tone.duration ((ch.reading none).owed (some p) []) =
        length.active + length.cutoff := by
      simp only [Reading.owed, hs, Sound.part, heldTicks]
      exact Reading.duration_play hlen _ _
    rw [hp, htime, hsum]
    simp only [Option.elim]
    grind
  | @silence p perTick' hp hs hper' =>
    rw [hper] at hper'
    cases hper'
    have hpart : p.sound.part p.octave = .rest ∨ p.sound.part p.octave = .wait := by
      cases hsound : p.sound with
      | note pitch => simp [hsound, Sound.isNote] at hs
      | rest => exact Or.inl rfl
      | wait => exact Or.inr rfl
    have htime : Tone.duration ((ch.reading none).owed (some p) []) = perTick * p.ticks :=
      Reading.duration_play_silence hper hpart
    rw [hp, htime, Warning.losses_nil]
    simp only [Option.elim]
    grind

/-- **A tuplet takes the time of its ticks.** -/
theorem Closed.keepsTime {ch ch' : Channel} {entries : List TupletEntry} {ticks : Nat}
    {ws : List Warning} (h : Closed ch entries ticks ws ch')
    (hmark : Channel.MarkersFit (maxLength ch.scale) entries) {perTick : Int}
    (hper : unitsPerTick? ch.tempo ch.clock = some perTick) : ch.KeepsTime perTick ws ch' := by
  obtain ⟨d, hlength, -⟩ := ch.exists_driver
  obtain ⟨-, cs, happ, hplay⟩ := h.plays hmark none
  have hname : ch'.name = ch.name := congrArg (·.name) happ.offStream
  have hticks : ch'.ticks = ch.ticks + ticks := congrArg (·.ticks) happ.offStream
  have helapsed : ch'.elapsed = ch.elapsed + Tone.duration (d.hear cs) := happ.elapsed d hlength
  refine ⟨hname, ?_⟩
  rw [helapsed, hticks, (hplay d hlength).1]
  cases h with
  | @timed length ht hlen =>
    obtain ⟨perTick', hper', -, -, -, hsum⟩ := splitNote_parts hlen ch.name
    rw [hper] at hper'
    cases hper'
    have hparts : parts d.octave entries ≠ [] := by
      rw [ne_eq, parts_eq_nil_iff, ht]
      decide
    have htime : Tone.duration ((ch.reading none).playGroup (parts d.octave entries) ticks) =
        length.active + length.cutoff := Reading.duration_playGroup hlen hparts
    rw [htime, hsum]
    grind
  | silent ht hper' =>
    have hparts : parts d.octave entries = [] := (parts_eq_nil_iff _ _).mpr ht
    have htime : Tone.duration ((ch.reading none).playGroup (parts d.octave entries) ticks) =
        perTick * ticks := by
      rw [Reading.playGroup, if_pos hparts]
      exact Reading.duration_play_silence hper (Or.inl rfl)
    rw [htime, Warning.losses_nil]
    grind

/-- **Every accepted event keeps time.** -/
theorem Accepted.keepsTime {ch ch' : Channel} {e : Event} {ws : List Warning} (ho : ch.Orderly)
    (h : Accepted ch e ws ch') {perTick : Int}
    (hper : unitsPerTick? ch.tempo ch.clock = some perTick) : ch.KeepsTime perTick ws ch' := by
  cases h with
  | @entry _ s _ _ he ht =>
    have hnotice : ch.KeepsTime perTick [] (ch.notice s) := .of_eq rfl rfl rfl rfl
    exact hnotice.congr_offMarks (Channel.offMarks_addEntry (ch.notice s) s)
  | queue he ht hf =>
    have hflush := hf.keepsTime hper
    exact ⟨hflush.name, hflush.elapsed⟩
  | extend | tieAlone | tieIgnored | octave | tempoIgnored | cutoffIgnored | unsupported =>
    exact .of_eq rfl rfl rfl rfl
  | tempo hv hn hf => exact (hf.keepsTime hper).congr rfl rfl rfl
  | cutoff hv hf => exact (hf.keepsTime hper).congr rfl rfl rfl
  | tupletStart ht hf => exact (hf.keepsTime hper).congr rfl rfl rfl
  | loopPoint ht hf => exact (hf.keepsTime hper).congr rfl rfl rfl
  | @volume n _ ch₁ hn hf =>
    have hemit := Channel.offMarks_emit ch₁ (.volume (.ofNat n.toNat))
    exact ((hf.keepsTime hper).congr_offMarks hemit).congr rfl rfl rfl
  | @effect f key everyNote _ ch₁ hs hf =>
    have hemit := Channel.offMarks_emit ch₁ (.effectOn f (Encoding.macroOperand key everyNote))
    exact ((hf.keepsTime hper).congr_offMarks hemit).congr rfl rfl rfl
  | effectOff hf => exact (hf.keepsTime hper).congr_offMarks (Channel.offMarks_emit _ _)
  | blockEnd hf => exact (hf.keepsTime hper).congr_offMarks (Channel.offMarks_emitOctave _ _)
  | tupletEnd ht hc =>
    have hmark := ho.markers
    rw [Channel.entries_some ht] at hmark
    exact hc.keepsTime hmark hper

end Chiptune
