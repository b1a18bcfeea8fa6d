import Chiptune.Proofs.Rendering

/-!
# Events are followed as the score says

Reading a score goes from event to event, and so does a channel.  The tones of an event belong to
the place where it is read; the channel appends them later, when nothing can change them any more.
So after each event the tones that the score has given so far are those that were appended,
together with those that are still owed.

## Main definitions

* `Channel.Follows` — an event was followed as the score says.

## Main results

* `Accepted.follows` — every accepted event is followed as the score says.
* `Accepted.loopPoint_cases` — the loop point is set by its event only.
* `Refused.extended` — a refused event leaves whole commands behind.
-/

namespace Chiptune

/-! ### Single events in a score -/

section Score

variable {r : Reading} {e : Event} {voice : Voice}

theorem heldTicks_of_settles (h : e.settles voice = true) (ticks : Nat) (es : List Event) :
    heldTicks voice ticks (e :: es) = ticks := by
  cases e <;> simp_all [heldTicks, Event.settles]

theorem heldTicks_of_not_settles (h : e.settles voice = false) (htie : ∀ n, e ≠ .tie n)
    (ticks : Nat) (es : List Event) :
    heldTicks voice ticks (e :: es) = heldTicks voice ticks es := by
  cases e <;> simp_all [heldTicks, Event.settles]

/-- An event that settles the sound that is waiting leaves nothing to come. -/
theorem Reading.owed_of_settles (h : e.settles r.voice = true) (pending : Option PendingSound)
    (es : List Event) : r.owed pending (e :: es) = r.owed pending [] := by
  cases pending with
  | none => rfl
  | some p => simp only [owed, heldTicks_of_settles h, heldTicks]

variable {s : Sound} {ticks : Nat}

theorem Event.settles_of_sound (he : e.sound? = some (s, ticks)) : e.settles voice = true := by
  cases e <;> first | rfl | cases he

theorem Reading.next_sound (he : e.sound? = some (s, ticks)) :
    r.next e = r.enter (s.part r.octave.toNat) := by
  cases e with
  | note semitone n => cases he; rfl
  | rest n => cases he; rfl
  | wait n => cases he; rfl
  | _ => cases he

/-- A sound that stands alone has its own tones. -/
theorem Reading.tones_sound (he : e.sound? = some (s, ticks)) (hg : r.group = none)
    (es : List Event) :
    r.tones e es = r.play (s.part r.octave.toNat) (heldTicks r.voice ticks es) := by
  cases e with
  | note semitone n => cases he; simp only [tones, hg]; rfl
  | rest n => cases he; simp only [tones, hg]; rfl
  | wait n => cases he; simp only [tones, hg]; rfl
  | _ => cases he

/-- A sound within a tuplet has no tones before the tuplet ends. -/
theorem Reading.tones_sound_of_group (he : e.sound? = some (s, ticks)) {sounds : List Part}
    (hg : r.group = some sounds) (es : List Event) : r.tones e es = [] := by
  cases e with
  | note semitone n => simp only [tones, hg]
  | rest n => simp only [tones, hg]
  | wait n => simp only [tones, hg]
  | _ => cases he

/-- Most events have no tones. -/
theorem Reading.tones_eq_nil (hsound : e.sound? = none) (htie : ∀ n, e ≠ .tie n)
    (hend : ∀ n, e ≠ .tupletEnd n) (es : List Event) : r.tones e es = [] := by
  unfold tones
  split <;> simp_all [Event.sound?]

variable {o : Octave} {n : Int}

/-- Selecting an octave has no tones and settles nothing. -/
theorem Event.quiet_of_octave (voice : Voice) (he : e.octave? o = some n) :
    e.settles voice = false ∧ e.sound? = none ∧ (∀ n, e ≠ .tie n) ∧ ∀ n, e ≠ .tupletEnd n := by
  cases e with
  | octave m => exact ⟨rfl, rfl, by simp, by simp⟩
  | octaveUp => exact ⟨rfl, rfl, by simp, by simp⟩
  | octaveDown => exact ⟨rfl, rfl, by simp, by simp⟩
  | _ => cases he

theorem Reading.next_octave (he : e.octave? o = some n) (hr : r.octave = o.val) :
    r.next e = { r with octave := n } := by
  cases e with
  | octave m => cases he; rfl
  | octaveUp => cases he; simp only [next, hr]
  | octaveDown => cases he; simp only [next, hr]
  | _ => cases he

end Score

/-! ### Following an event -/

namespace Channel

variable {ch ch' ch₁ : Channel} {e : Event} {ws : List Warning}

/-- The event `e` took the channel from `ch` to `ch'`.  Commands were appended, what the channel has
made of the events is what the score says, and nothing is lost: the tones that were owed and those
of the event are those that were appended and those that are owed now. -/
def Follows (ch : Channel) (e : Event) (ch' : Channel) : Prop :=
  ∃ ts, Renders ch ch' ts (fun g => ((ch.reading g).next e).group) ∧
    ∀ g, g.isSome = ch.tuplet.isSome →
      ch'.reading ((ch.reading g).next e).group = (ch.reading g).next e ∧
      ∀ es, (ch.reading g).owed ch.pending (e :: es) ++ (ch.reading g).tones e es =
        ts g ++ ((ch.reading g).next e).owed ch'.pending es

theorem Follows.orderly (h : Follows ch e ch') (ho : ch.Orderly) : ch'.Orderly := by
  obtain ⟨ts, hrender, -⟩ := h
  exact (hrender ho).1

/-- An event without tones, which first has the sound that was waiting written. -/
theorem Follows.of_flush {f : Option (List Part) → Option (List Part)} (hf : Flushed ch ws ch₁)
    (hs : e.settles ch.voice = true) (hsound : e.sound? = none) (hend : ∀ n, e ≠ .tupletEnd n)
    (hr : Renders ch₁ ch' (fun _ => []) f) (hpending : ch'.pending = none)
    (hnext : ∀ g, g.isSome = ch.tuplet.isSome → (ch.reading g).next e = ch'.reading (f g)) :
    Follows ch e ch' := by
  have htie : ∀ n, e ≠ .tie n := by
    rintro n rfl
    cases hs
  have hrender : Renders ch ch' (fun g => (ch.reading g).owed ch.pending [])
      (fun g => ((ch.reading g).next e).group) :=
    (hf.renders.trans hr).congr fun g hg => ⟨by simp, by rw [hnext g hg]; rfl⟩
  refine ⟨_, hrender, fun g hg => ?_⟩
  rw [hnext g hg]
  refine ⟨rfl, fun es => ?_⟩
  rw [Reading.owed_of_settles hs, Reading.tones_eq_nil hsound htie hend, hpending]
  rfl

/-- A setting, before which the sound that was waiting is written. -/
theorem Follows.of_setting (hf : Flushed ch ws ch₁) (hs : e.settles ch.voice = true)
    (hsound : e.sound? = none) (hend : ∀ n, e ≠ .tupletEnd n)
    (hr : Renders ch₁ ch' (fun _ => []) id) (hpending : ch'.pending = ch₁.pending)
    (hread : ∀ g, ch'.reading g = ch₁.reading g)
    (hnext : ∀ g, (ch.reading g).next e = { ch.reading g with held := false }) :
    Follows ch e ch' := by
  refine .of_flush hf hs hsound hend hr (hpending.trans hf.pending) fun g _ => ?_
  rw [hnext, ← hf.reading, ← hread]
  rfl

/-- An event that writes nothing and has no tones. -/
theorem Follows.of_quiet (hs : e.settles ch.voice = false) (hsound : e.sound? = none)
    (htie : ∀ n, e ≠ .tie n) (hend : ∀ n, e ≠ .tupletEnd n)
    (hstream : ch'.onStream = ch.onStream) (hoctave : ch'.driverOctave = ch.driverOctave)
    (htuplet : ch'.tuplet = ch.tuplet) (hpending : ch'.pending = ch.pending)
    (hsame : ch'.tempo = ch.tempo ∧ ch'.cutoff = ch.cutoff ∧ ch'.voice = ch.voice)
    (hnext : ∀ g, ch'.reading g = (ch.reading g).next e) : Follows ch e ch' := by
  refine ⟨fun _ => [], ?_, fun g _ => ?_⟩
  · refine (Renders.of_eq hstream hoctave htuplet (Or.inr hpending)).congr fun g _ => ⟨rfl, ?_⟩
    rw [← hnext]
    rfl
  · rw [← hnext]
    refine ⟨rfl, fun es => ?_⟩
    obtain ⟨htempo, hcutoff, hvoice⟩ := hsame
    have hclock : ch'.clock = ch.clock := congrArg (·.clock) hstream
    have howed : (ch'.reading g).owed ch.pending es = (ch.reading g).owed ch.pending es :=
      Reading.owed_congr hvoice hclock htempo hcutoff _ _
    rw [Reading.tones_eq_nil hsound htie hend, hpending, howed, List.append_nil, List.nil_append]
    -- ties after the event still extend the sound that is waiting
    cases ch.pending with
    | none => rfl
    | some p => simp only [Reading.owed, heldTicks_of_not_settles hs htie, reading]

/-- What settings and the entries of tuplets leave alone. -/
def offMarks (ch : Channel) : Channel :=
  { ch with data := #[], tuplet := none, driverOctave := none }

@[simp] theorem offMarks_emit (ch : Channel) (c : Command) :
    (ch.emit c).offMarks = ch.offMarks := by
  unfold emit
  split <;> rfl

@[simp] theorem offMarks_emitOctave (ch : Channel) (o : Octave) :
    (ch.emitOctave o).offMarks = ch.offMarks := by
  unfold emitOctave
  split
  · rfl
  · exact offMarks_emit ch _

@[simp] theorem offMarks_addEntry (ch : Channel) (s : Sound) :
    (ch.addEntry s).offMarks = ch.offMarks := by
  unfold addEntry
  split
  · exact offMarks_emitOctave ch _
  · rfl

theorem reading_eq_of_offMarks (h : ch'.offMarks = ch.offMarks) (g : Option (List Part)) :
    ch'.reading g = ch.reading g :=
  congrArg (·.reading g) h

theorem pending_eq_of_offMarks (h : ch'.offMarks = ch.offMarks) : ch'.pending = ch.pending :=
  congrArg (·.pending) h

theorem loopPoint_eq_of_offMarks (h : ch'.offMarks = ch.offMarks) :
    ch'.loopPoint = ch.loopPoint :=
  congrArg (·.loopPoint) h

end Channel

/-! ### Accepted events -/

namespace Accepted

open Channel

variable {ch ch' ch₁ : Channel} {e : Event} {ws : List Warning} {s : Sound} {ticks : Nat}

/-- A sound became an entry of the open tuplet. -/
private theorem entry_follows (ho : ch.Orderly) (he : e.sound? = some (s, ticks))
    (ht : ch.tuplet.isSome = true) : Follows ch e ((ch.notice s).addEntry s) := by
  have hp : ch.pending = none := ho.alone.resolve_left (by
    intro hnone
    rw [hnone] at ht
    cases ht)
  have hnotice : Renders ch (ch.notice s) (fun _ => []) id := .of_eq rfl rfl rfl (Or.inr rfl)
  have hnext : ∀ g : Option (List Part), g.isSome = ch.tuplet.isSome →
      (ch.reading g).next e = ch.reading (g.map (· ++ [s.part ch.octave])) := by
    intro g hg
    obtain ⟨sounds, rfl⟩ := Option.isSome_iff_exists.mp (hg.trans ht)
    rw [Reading.next_sound he]
    simp [Reading.enter, reading]
  refine ⟨fun _ => [], ?_, fun g hg => ?_⟩
  · refine (hnotice.trans (addEntry_renders (ch.notice s) s ht)).congr fun g hg => ⟨rfl, ?_⟩
    rw [hnext g hg]
    rfl
  · -- nothing was owed and nothing is: the tones come when the tuplet is closed
    obtain ⟨sounds, rfl⟩ := Option.isSome_iff_exists.mp (hg.trans ht)
    rw [hnext _ hg]
    have hframe := offMarks_addEntry (ch.notice s) s
    refine ⟨reading_eq_of_offMarks hframe _, fun es => ?_⟩
    rw [Reading.tones_sound_of_group he rfl, hp, (pending_eq_of_offMarks hframe).trans hp]
    rfl

/-- A sound waits after the one before it was written. -/
private theorem queue_follows (he : e.sound? = some (s, ticks)) (ht : ch.tuplet = none)
    (hf : Flushed (ch.notice s) ws ch₁) : Follows ch e (ch₁.enqueue s ticks) := by
  have ht₁ : ch₁.tuplet = none := hf.tuplet.trans ht
  have hread : ∀ g, ch₁.reading g = { ch.reading g with held := false } := hf.reading
  have hnext : ∀ g : Option (List Part), g.isSome = ch.tuplet.isSome →
      g = none ∧ (ch.reading g).next e = { ch.reading g with held := true } := by
    intro g hg
    have hnone : g = none := by simpa [ht] using hg
    rw [Reading.next_sound he, hnone]
    exact ⟨rfl, rfl⟩
  have hrender : Renders ch (ch₁.enqueue s ticks)
      (fun g => (ch.reading g).owed ch.pending []) (fun g => ((ch.reading g).next e).group) := by
    have hnotice : Renders ch (ch.notice s) (fun _ => []) id := .of_eq rfl rfl rfl (Or.inr rfl)
    have henqueue : Renders ch₁ (ch₁.enqueue s ticks) (fun _ => []) id :=
      .of_eq rfl rfl rfl (Or.inl ht₁)
    refine ((hnotice.trans hf.renders).trans henqueue).congr fun g hg => ⟨?_, ?_⟩
    · simp [reading, notice]
    · rw [(hnext g hg).2]
      rfl
  refine ⟨_, hrender, fun g hg => ?_⟩
  obtain ⟨hnone, hnext⟩ := hnext g hg
  have hocteq : ch₁.octave = ch.octave := by
    have : (ch₁.octave.val : Int) = ch.octave.val := congrArg (·.octave) (hread g)
    exact Fin.ext (by omega)
  rw [hnext]
  refine ⟨?_, fun es => ?_⟩
  · calc (ch₁.enqueue s ticks).reading g = { ch₁.reading g with held := true } := rfl
      _ = { ch.reading g with held := true } := by rw [hread]
  · -- what was owed has been written, and the tones of the event are owed now
    rw [Reading.owed_of_settles (Event.settles_of_sound he), Reading.tones_sound he hnone]
    simp only [Reading.owed, enqueue, hocteq]
    rfl

/-- A tie extends what is waiting, or waits itself. -/
private theorem tie_follows (ht : ch.tuplet = none) {p : PendingSound}
    (hp : ch'.pending = some p) (hstream : ch'.onStream = ch.onStream)
    (hoctave : ch'.driverOctave = ch.driverOctave) (htuplet : ch'.tuplet = ch.tuplet)
    (hread : ch'.reading none = { ch.reading none with held := true })
    (howed : ∀ es, (ch.reading none).owed ch.pending (.tie ticks :: es) ++
      (ch.reading none).tones (.tie ticks) es = (ch.reading none).owed (some p) es) :
    Follows ch (.tie ticks) ch' := by
  refine ⟨fun _ => [], ?_, fun g hg => ?_⟩
  · exact Renders.of_eq hstream hoctave htuplet (Or.inl ht)
  · have hnone : g = none := by simpa [ht] using hg
    subst hnone
    refine ⟨hread, fun es => ?_⟩
    rw [howed, hp]
    exact Reading.owed_congr rfl rfl rfl rfl _ _

/-- **An accepted event is followed as the score says.** -/
theorem follows (ho : ch.Orderly) (h : Accepted ch e ws ch') : Follows ch e ch' := by
  cases h with
  | entry he ht => exact entry_follows ho he (by simp [ht])
  | queue he ht hf => exact queue_follows he ht hf
  | @extend n p ht hp =>
    refine tie_follows ht rfl rfl rfl rfl ?_ fun es => ?_
    · simp [reading]
    · simp [Reading.owed, Reading.tones, heldTicks, reading, hp, PendingSound.extend]
  | @tieAlone n ht hp =>
    refine tie_follows ht rfl rfl rfl rfl ?_ fun es => ?_
    · simp [reading, enqueue, notice]
    · simp [Reading.owed, Reading.tones, reading, hp, Sound.part]
  | @tieIgnored n entries ht =>
    have hp : ch.pending = none := ho.alone.resolve_left (by simp [ht])
    refine ⟨fun _ => [], Renders.refl ch, fun g hg => ?_⟩
    obtain ⟨sounds, rfl⟩ := Option.isSome_iff_exists.mp (hg.trans (by simp [ht]))
    refine ⟨by simp [reading, Reading.next, hp], fun es => ?_⟩
    simp [Reading.owed, Reading.tones, reading, hp]
  | @octave _ n o he hn =>
    obtain ⟨hs, hsound, htie, hend⟩ := Event.quiet_of_octave ch.voice he
    refine .of_quiet hs hsound htie hend rfl rfl rfl rfl ⟨rfl, rfl, rfl⟩ fun g => ?_
    rw [Reading.next_octave he rfl, ← hn]
    rfl
  | tempoIgnored hv | cutoffIgnored hv =>
    have hv : ch.voice.isVirtual = true := hv
    refine .of_quiet (by simp [Event.settles, hv]) rfl (by simp) (by simp) rfl rfl rfl rfl
      ⟨rfl, rfl, rfl⟩ fun g => ?_
    simp [Reading.next, reading, hv]
  | unsupported hs =>
    refine .of_quiet hs rfl (by simp) (by simp) rfl rfl rfl rfl ⟨rfl, rfl, rfl⟩ fun g => ?_
    simp [Reading.next, reading, hs]
  | @tempo n _ ch₁ hv hn hf =>
    have hv : ch.voice.isVirtual = false := hv
    refine .of_flush hf (by simp [Event.settles, hv]) rfl (by simp)
      (.of_eq rfl rfl rfl (Or.inr rfl)) hf.pending fun g _ => ?_
    calc (ch.reading g).next (.tempo n)
      _ = { ch.reading g with held := false, tempo := n } := by simp [Reading.next, reading, hv]
      _ = { ch₁.reading g with tempo := n } := by rw [hf.reading]
  | @cutoff c _ ch₁ hv hf =>
    have hv : ch.voice.isVirtual = false := hv
    refine .of_flush hf (by simp [Event.settles, hv]) rfl (by simp)
      (.of_eq rfl rfl rfl (Or.inr rfl)) hf.pending fun g _ => ?_
    calc (ch.reading g).next (.cutoff c)
      _ = { ch.reading g with held := false, cutoff := c } := by simp [Reading.next, reading, hv]
      _ = { ch₁.reading g with cutoff := c } := by rw [hf.reading]
  | @volume n _ ch₁ hn hf =>
    have hframe := offMarks_emit ch₁ (.volume (.ofNat n.toNat))
    have hpending := pending_eq_of_offMarks hframe
    have hread := reading_eq_of_offMarks hframe
    exact .of_setting hf rfl rfl (by simp) (emitVolume_renders ch₁ _) hpending hread fun _ => rfl
  | tupletStart ht hf =>
    have ht₁ := hf.tuplet.trans ht
    refine .of_flush hf rfl rfl (by simp) (openTuplet_renders ht₁ hf.pending) hf.pending
      fun g _ => ?_
    exact (hf.reading (some [])).symm
  | @tupletEnd ticks entries _ _ ht hc =>
    have hp : ch.pending = none := ho.alone.resolve_left (by simp [ht])
    have hp' : ch'.pending = none := by
      have hframe : ch'.pending = ch.pending := congrArg (·.pending) hc.offStream
      rw [hframe, hp]
    -- beside a tuplet no sound waits, so all that is written are the tones of the tuplet
    refine ⟨_, hc.renders ht, fun g hg => ?_⟩
    obtain ⟨sounds, rfl⟩ := Option.isSome_iff_exists.mp (hg.trans (by simp [ht]))
    refine ⟨congrArg (·.reading none) hc.offStream, fun es => ?_⟩
    rw [hp, hp']
    simp [Reading.owed, Reading.tones, reading]
  | loopPoint ht hf =>
    have ht₁ := hf.tuplet.trans ht
    refine .of_flush hf rfl rfl (by simp) (markLoop_renders ht₁) hf.pending fun g hg => ?_
    have hnone : g = none := by simpa [ht] using hg
    rw [hnone]
    exact (hf.reading none).symm
  | @blockEnd _ ch₁ hf =>
    have hframe := offMarks_emitOctave ch₁ ch₁.octave
    exact .of_setting hf rfl rfl (by simp) (emitOctave_renders ch₁ ch₁.octave)
      (pending_eq_of_offMarks hframe) (reading_eq_of_offMarks hframe) fun _ => rfl
  | @effect effect key everyNote _ ch₁ hs hf =>
    have hframe := offMarks_emit ch₁ (.effectOn effect (Encoding.macroOperand key everyNote))
    have hpending := pending_eq_of_offMarks hframe
    have hread := reading_eq_of_offMarks hframe
    refine .of_setting hf hs rfl (by simp) (emitEffect_renders ch₁ effect _) hpending hread
      fun g => ?_
    simp [Reading.next, reading, hs]
  | @effectOff effect _ ch₁ hf =>
    have hframe := offMarks_emit ch₁ (.effectOff effect)
    have hemit := emit_renders ch₁ (c := .effectOff effect) trivial rfl fun _ => rfl
    exact .of_setting hf rfl rfl (by simp) hemit
      (pending_eq_of_offMarks hframe) (reading_eq_of_offMarks hframe) fun _ => rfl

/-- The loop point is set by its event, and not changed by any other. -/
theorem loopPoint_cases (h : Accepted ch e ws ch') :
    (e ≠ .loopPoint ∧ ch'.loopPoint = ch.loopPoint) ∨
      e = .loopPoint ∧ ∃ ch₁ : Channel, ch₁.tuplet = none ∧ ch' = ch₁.markLoop := by
  cases h with
  | loopPoint ht hf => exact Or.inr ⟨rfl, _, hf.tuplet.trans ht, rfl⟩
  | @entry _ s _ _ he ht =>
    have hframe := loopPoint_eq_of_offMarks (offMarks_addEntry (ch.notice s) s)
    exact Or.inl ⟨(by rintro rfl; cases he), hframe⟩
  | queue he ht hf => exact Or.inl ⟨(by rintro rfl; cases he), hf.loopPoint⟩
  | octave he ho => exact Or.inl ⟨(by rintro rfl; cases he), rfl⟩
  | extend | tieAlone | tieIgnored | tempoIgnored | cutoffIgnored | unsupported =>
    exact Or.inl ⟨by simp, rfl⟩
  | tempo _ _ hf | cutoff _ hf | tupletStart _ hf => exact Or.inl ⟨by simp, hf.loopPoint⟩
  | volume _ hf | effect _ hf | effectOff hf =>
    exact Or.inl ⟨by simp, (loopPoint_eq_of_offMarks (offMarks_emit _ _)).trans hf.loopPoint⟩
  | blockEnd hf =>
    exact Or.inl ⟨by simp, (loopPoint_eq_of_offMarks (offMarks_emitOctave _ _)).trans hf.loopPoint⟩
  | tupletEnd ht hc => exact Or.inl ⟨by simp, congrArg (·.loopPoint) hc.offStream⟩

end Accepted

/-! ### Refused events -/

/-- **A refused event leaves whole commands behind**, and does not touch the loop point. -/
theorem Refused.extended {ch ch' : Channel} {e : Event} (ho : ch.Orderly) (h : Refused ch e ch') :
    ch'.Orderly ∧ (∃ cs, Channel.Extended ch cs ch') ∧ ch'.loopPoint = ch.loopPoint := by
  cases h with
  | same => exact ⟨ho, ⟨[], .of_onStream rfl⟩, rfl⟩
  | lost hp => exact ⟨ho.congr rfl rfl (Or.inr rfl), ⟨[], .of_onStream rfl⟩, rfl⟩
  | lostNoticed he hp => exact ⟨ho.congr rfl rfl (Or.inr rfl), ⟨[], .of_onStream rfl⟩, rfl⟩
  | tuplet ht => exact ⟨.of_none rfl, ⟨[], .of_onStream rfl⟩, rfl⟩
  | @untimed ticks entries ht hu hper =>
    -- the markers of the tuplet are in the stream, though the tuplet is lost
    have hmark := ho.markers
    rw [Channel.entries_some ht] at hmark
    have hmax : (0 : Int) ≤ maxLength ch.scale := Int.le_of_lt (maxLength_pos ch.clock.scale_pos)
    obtain ⟨cs, happ, -⟩ :=
      Channel.writeEntries_plays (ch.closeTuplet ticks) (Int.le_refl 0) hmax hmark
    have hclose : Channel.Extended ch [] (ch.closeTuplet ticks) := .of_onStream rfl
    exact ⟨.of_none (congrArg (·.tuplet) happ.offStream), ⟨cs, hclose.trans happ.toExtended⟩,
      congrArg (·.loopPoint) happ.offStream⟩

end Chiptune
