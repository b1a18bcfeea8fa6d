import Chiptune.Proofs.Operation

/-!
# What is played for sounds and tuplets

The commands for a sound that was waiting, and those for a tuplet, play what the score says about
them.  The octave of a sound that stands alone is the one in which it was entered.  The octaves
within a tuplet come from the octave of the driver at its start, and from its markers.

## Main definitions

* `parts` — the sounds of a tuplet, on a driver in some octave.
* `Channel.reading` — what a channel has made of the events so far.
* `Reading.owed` — the tones of the sound that is waiting.

## Main results

* `Flushed.plays`, `Closed.plays` — the sound that was waiting and the tuplet are played as written
  in the score.
-/

namespace Chiptune

/-! ### The sounds of a tuplet -/

@[simp] theorem TupletEntry.isTimed_sound (s : Sound) : (sound s).isTimed = true := rfl

@[simp] theorem TupletEntry.isTimed_marker (c : Command) : (marker c).isTimed = false := rfl

/-- The sounds among the entries of a tuplet, on a driver in the octave `o`. -/
def parts (o : UInt8) : List TupletEntry → List Part
  | [] => []
  | .sound s :: es => s.part o.toNat :: parts o es
  | .marker c :: es => parts (Channel.octaveAfter o (.marker c)) es

theorem parts_append (o : UInt8) (es es' : List TupletEntry) :
    parts o (es ++ es') = parts o es ++ parts (es.foldl Channel.octaveAfter o) es' := by
  induction es generalizing o with
  | nil => rfl
  | cons e es ih =>
    cases e with
    | sound s => simp [parts, ih, Channel.octaveAfter]
    | marker c => simp [parts, ih]

theorem length_parts (o : UInt8) (es : List TupletEntry) :
    (parts o es).length = (es.map (·.isTimed)).count true := by
  induction es generalizing o with
  | nil => rfl
  | cons e es ih =>
    cases e with
    | sound s => simp [parts, ih]
    | marker c => simp [parts, ih]

theorem parts_eq_nil_iff (o : UInt8) (es : List TupletEntry) :
    parts o es = [] ↔ es.any (·.isTimed) = false := by
  rw [← List.length_eq_zero_iff, length_parts, List.count_eq_zero]
  simp

/-- Each sound of a tuplet plays for its share, and the sounds are numbered without the markers
between them. -/
theorem entryTones_spread (longest : Int) (f : Nat → Int) :
    ∀ (es : List TupletEntry) (o : UInt8) (i : Nat),
    Channel.entryTones longest o (es.zip (spread f i (es.map (·.isTimed)))) =
      ((parts o es).zipIdx i).flatMap fun (part, j) => part.tones longest (f j) := by
  intro es
  induction es with
  | nil => intro o i; rfl
  | cons e es ih =>
    intro o i
    cases e with
    | sound s => simp [parts, spread, Channel.entryTones, ih]
    | marker c => simp [parts, spread, Channel.entryTones, ih]

theorem entryTones_distribute (longest : Int) {active : Int} (h0 : 0 ≤ active) (o : UInt8)
    (es : List TupletEntry) :
    Channel.entryTones longest o (es.zip (distribute active (es.map (·.isTimed)))) =
      (parts o es).zipIdx.flatMap fun (part, i) =>
        part.tones longest (share active (parts o es).length i) := by
  rw [distribute_eq_spread h0, entryTones_spread, length_parts]

/-! ### The reading of a channel -/

/-- What a channel has made of the events so far, where `group` are the sounds of its tuplet. -/
def Channel.reading (ch : Channel) (group : Option (List Part)) : Reading where
  voice := ch.voice
  clock := ch.clock
  tempo := ch.tempo
  cutoff := ch.cutoff
  octave := ch.octave.val
  held := ch.pending.isSome
  group := group

/-- The tones of the sound that is waiting, if the events `es` follow. -/
def Reading.owed (r : Reading) (pending : Option PendingSound) (es : List Event) : List Tone :=
  match pending with
  | none => []
  | some p => r.play (p.sound.part p.octave) (heldTicks r.voice p.ticks es)

/-- What is owed depends on the tempo and the cutoff, not on octaves and tuplets. -/
theorem Reading.owed_congr {r r' : Reading} (hvoice : r'.voice = r.voice)
    (hclock : r'.clock = r.clock) (htempo : r'.tempo = r.tempo) (hcutoff : r'.cutoff = r.cutoff)
    (pending : Option PendingSound) (es : List Event) : r'.owed pending es = r.owed pending es := by
  obtain ⟨voice, clock, tempo, cutoff, octave, held, group⟩ := r
  obtain ⟨voice', clock', tempo', cutoff', octave', held', group'⟩ := r'
  subst hvoice hclock htempo hcutoff
  cases pending <;> rfl

/-- The channel without the sound that was waiting. -/
def Channel.settled (ch : Channel) : Channel :=
  match ch.pending with
  | none => ch
  | some p => ch.dequeue p

@[simp] theorem Channel.driverOctave_writeNote (ch : Channel) (p : Fin 12) (o : Octave) (n : Int) :
    (ch.writeNote p o n).driverOctave = some o := by
  unfold writeNote
  split <;> rfl

/-- The silent part of a length leaves the octave alone. -/
theorem Channel.driverOctave_writeWithCutoff {ch : Channel} {body : Channel → Channel}
    {x : Option Octave}
    (h : ∀ ch₁ : Channel, ch₁.driverOctave = ch.driverOctave → (body ch₁).driverOctave = x)
    (cut : Int) : (ch.writeWithCutoff cut body).driverOctave = x := by
  unfold writeWithCutoff
  split
  · exact h _ (by simp)
  · rw [driverOctave_writeSilence]
    exact h ch rfl

/-- **The sound that was waiting is played as the score says.**  The channel relies on the octave
and the delay that it expects, and its expectation of the octave stays true. -/
theorem Flushed.plays {ch ch' : Channel} {ws : List Warning} (h : Flushed ch ws ch')
    (group : Option (List Part)) :
    ∃ cs, Channel.Appended ch.settled cs ch' ∧
      ∀ d : Driver, ch.KnowsLength d → ch.KnowsOctave d.octave →
        d.hear cs = (ch.reading group).owed ch.pending [] ∧ ch'.KnowsOctave (d.run cs).octave := by
  cases h with
  | idle hp =>
    refine ⟨[], ?_, fun d _ ho => ⟨by simp [Reading.owed, hp], ho⟩⟩
    simp only [Channel.settled, hp]
    exact .refl ch
  | @note p pitch length hp hs hlen =>
    obtain ⟨perTick, -, h0, hmax, hcut, -⟩ := splitNote_parts hlen ch.name
    -- the note itself, which may come before or after its silent part
    have hnote : ∀ ch₁ : Channel, ch₁.offStream = (ch.dequeue p).offStream →
        ch₁.driverOctave = (ch.dequeue p).driverOctave →
        Channel.Plays ch₁ (ch₁.writeNote pitch p.octave length.active) ch.KnowsOctave
          (fun _ => [.note pitch p.octave length.active]) (fun _ => .ofNat p.octave) := by
      intro ch₁ hoff hoct
      have hscale : ch₁.scale = ch.scale := (Channel.scale_eq_of_offStream hoff).trans rfl
      refine (Channel.writeNote_plays ch₁ pitch p.octave h0 (by rw [hscale]; exact hmax)).congr
        (fun o ho k hk => ho k ?_) (fun _ _ => rfl) fun _ _ => rfl
      rw [← hk, hoct]
      rfl
    obtain ⟨cs, happ, hplay⟩ := Channel.writeWithCutoff_plays hcut hnote
    -- the silent part does not touch the octave, so the one of the note stays known
    refine ⟨cs, by simpa only [Channel.settled, hp] using happ, fun d hd ho => ?_⟩
    obtain ⟨hhear, hoct⟩ := hplay d hd ho
    constructor
    · rw [hhear, hp]
      simp only [Reading.owed, Reading.play, Channel.reading, heldTicks, hs, Sound.part, hlen]
      rfl
    · intro k hk
      rw [Channel.driverOctave_writeWithCutoff
        fun ch₁ _ => Channel.driverOctave_writeNote ch₁ pitch p.octave length.active] at hk
      rw [hoct, Option.some.inj hk]
  | @silence p perTick hp hs hper =>
    have h0 : 0 ≤ perTick * p.ticks := Int.mul_nonneg (unitsPerTick?_nonneg hper) (by omega)
    obtain ⟨cs, happ, hplay⟩ := Channel.writeSilence_plays hs (ch.dequeue p) _ h0
    refine ⟨cs, by simpa only [Channel.settled, hp] using happ, fun d hd ho => ?_⟩
    obtain ⟨hhear, hoct⟩ := hplay d hd trivial
    constructor
    · rw [hhear, hp]
      cases hsound : p.sound with
      | note pitch => simp [hsound, Sound.isNote] at hs
      | rest | wait =>
        simp only [Reading.owed, Reading.play, Channel.reading, heldTicks, hsound, Sound.part, hper]
        rfl
    · rw [hoct]
      intro k hk
      rw [Channel.driverOctave_writeSilence] at hk
      exact ho k hk

/-- **A tuplet is played as the score says**, whatever the octave in which it begins. -/
theorem Closed.plays {ch ch' : Channel} {entries : List TupletEntry} {ticks : Nat}
    {ws : List Warning} (h : Closed ch entries ticks ws ch')
    (hmark : Channel.MarkersFit (maxLength ch.scale) entries) (group : Option (List Part)) :
    ch'.driverOctave = ch.driverOctave ∧ ∃ cs, Channel.Appended (ch.closeTuplet ticks) cs ch' ∧
      ∀ d : Driver, ch.KnowsLength d →
        d.hear cs = (ch.reading group).playGroup (parts d.octave entries) ticks ∧
          (d.run cs).octave = entries.foldl Channel.octaveAfter d.octave := by
  cases h with
  | @timed length ht hlen =>
    obtain ⟨perTick, -, h0, hmax, hcut, -⟩ := splitNote_parts hlen ch.name
    refine ⟨Channel.driverOctave_writeWithCutoff (fun ch₁ hoct => ?_) _, ?_⟩
    · rw [Channel.driverOctave_writeEntries, hoct]
      rfl
    -- as for a note, the silent part may come before the entries or after them
    have hentries : ∀ ch₁ : Channel, ch₁.offStream = (ch.closeTuplet ticks).offStream →
        ch₁.driverOctave = (ch.closeTuplet ticks).driverOctave →
        Channel.Plays ch₁ (ch₁.writeEntries entries length.active) (fun _ => True)
          (fun o => Channel.entryTones (maxLength ch.scale) o
            (entries.zip (distribute length.active (entries.map (·.isTimed)))))
          (fun o => entries.foldl Channel.octaveAfter o) := by
      intro ch₁ hoff _
      have hscale : ch₁.scale = ch.scale := (Channel.scale_eq_of_offStream hoff).trans rfl
      rw [← hscale] at hmark ⊢
      exact Channel.writeEntries_plays ch₁ h0 (by rw [hscale]; exact hmax) hmark
    obtain ⟨cs, happ, hplay⟩ := Channel.writeWithCutoff_plays hcut hentries
    refine ⟨cs, happ, fun d hd => ?_⟩
    obtain ⟨hhear, hoct⟩ := hplay d hd trivial
    refine ⟨hhear.trans ?_, hoct⟩
    have hparts : parts d.octave entries ≠ [] := by
      rw [ne_eq, parts_eq_nil_iff, ht]
      decide
    simp only [entryTones_distribute _ h0]
    rw [Reading.playGroup, if_neg hparts]
    simp only [Channel.reading, hlen]
    rfl
  | @silent perTick ht hper =>
    refine ⟨by simp [Channel.closeTuplet], ?_⟩
    have h0 : 0 ≤ perTick * ticks := Int.mul_nonneg (unitsPerTick?_nonneg hper) (by omega)
    have hmax : (0 : Int) ≤ maxLength ch.scale := Int.le_of_lt (maxLength_pos ch.clock.scale_pos)
    have hmarkers := Channel.writeEntries_plays (ch.closeTuplet ticks) (Int.le_refl 0) hmax hmark
    have hrest := Channel.writeSilence_plays (s := .rest) rfl
      ((ch.closeTuplet ticks).writeEntries entries 0) _ h0
    obtain ⟨cs, happ, hplay⟩ := hmarkers.trans hrest fun _ _ => trivial
    refine ⟨cs, happ, fun d hd => ?_⟩
    obtain ⟨hhear, hoct⟩ := hplay d hd trivial
    refine ⟨hhear.trans ?_, hoct⟩
    -- only markers are left, and they are not heard
    have hparts : parts d.octave entries = [] := (parts_eq_nil_iff _ _).mpr ht
    simp only [entryTones_distribute _ (Int.le_refl 0)]
    rw [hparts, Reading.playGroup, if_pos rfl,
      Channel.scale_eq_of_offStream (Channel.offStream_writeEntries _ _ _)]
    simp only [Reading.play, Channel.reading, hper]
    rfl

end Chiptune
