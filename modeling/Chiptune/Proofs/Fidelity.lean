import Chiptune.Compile
import Chiptune.Proofs.Legible

/-!
# A channel plays its score

All events of a channel are accepted and the channel is ended.  Then its bytes, read back and
followed by a driver from its start, play the score of the events: every note with its pitch, its
octave and its length, every rest and every wait, in order and nothing else.

## Main definitions

* `Channel.Spans` — commands that a run of events has appended, with what they play.
* `record` — the events of a channel, and its end.

## Main results

* `Channel.applyEvents_spans` — what a run of accepted events appends plays their score, up to the
  sound that is still waiting.
* `record_plays_score` — a channel plays the score of its events.
-/

namespace Chiptune

open Command

/-- The events of a channel, and its end. -/
def record (events : List Event) : Encoding Unit := do
  applyEvents events
  Encoding.finish

/-! ### Runs of accepted events -/

namespace Channel

/-- The commands `cs` were appended on the way from `ch` to `ch'`.  For every driver of which the
channel's predictions are true, they play what was owed and what the events `es` add, but for what
is owed at the end. -/
structure Spans (ch : Channel) (es : List Event) (cs : List Command) (ch' : Channel) : Prop
    extends Extended ch cs ch' where
  /-- The open tuplet is in order. -/
  orderly : ch'.Orderly
  /-- The predictions stay true, and nothing of the score is lost. -/
  plays : ∀ g d, Synced ch g d → ∃ g', Synced ch' g' (d.run cs) ∧
    (ch.reading g).owed ch.pending es ++ (ch.reading g).score es =
      d.hear cs ++ (ch'.reading g').owed ch'.pending []

theorem Spans.of_follows {ch ch₁ ch' : Channel} {e : Event} {es : List Event} {cs : List Command}
    (ho : ch.Orderly) (h : Follows ch e ch₁) (hspan : Spans ch₁ es cs ch') :
    ∃ cs₁, Spans ch (e :: es) (cs₁ ++ cs) ch' := by
  obtain ⟨ts, hrender, hnext⟩ := h
  obtain ⟨-, cs₁, hext, hplay⟩ := hrender ho
  refine ⟨cs₁, hext.trans hspan.toExtended, hspan.orderly, fun g d hd => ?_⟩
  obtain ⟨hread, hbalance⟩ := hnext g hd.isSome
  obtain ⟨hhear, hsync⟩ := hplay g d hd
  obtain ⟨g', hsync', hscore⟩ := hspan.plays _ _ hsync
  refine ⟨g', by rw [Driver.run_append]; exact hsync', ?_⟩
  rw [hread] at hscore
  calc (ch.reading g).owed ch.pending (e :: es) ++ (ch.reading g).score (e :: es)
    _ = ((ch.reading g).owed ch.pending (e :: es) ++ (ch.reading g).tones e es) ++
          ((ch.reading g).next e).score es := by rw [Reading.score, List.append_assoc]
    _ = d.hear cs₁ ++ (((ch.reading g).next e).owed ch₁.pending es ++
          ((ch.reading g).next e).score es) := by rw [hbalance, hhear, List.append_assoc]
    _ = d.hear (cs₁ ++ cs) ++ (ch'.reading g').owed ch'.pending [] := by
          rw [hscore, Driver.hear_append, List.append_assoc]

/-- **A run of accepted events plays their score**, up to the sound that is still waiting. -/
theorem applyEvents_spans : ∀ (es : List Event) {d d' : Desk}, d.channel.Orderly →
    applyEvents es d = .ok () d' → ∃ cs, Spans d.channel es cs d'.channel := by
  intro es
  induction es with
  | nil =>
    intro d d' ho h
    cases h
    exact ⟨[], .of_onStream rfl, ho, fun g x hx => ⟨g, hx, by simp [Reading.score]⟩⟩
  | cons e es ih =>
    intro d d' ho h
    obtain ⟨d₁, happly, hrest⟩ := forM_cons_eq_ok h
    obtain ⟨ws, hacc, -⟩ := Event.accepted_of_ok happly
    have hfollows := hacc.follows ho
    obtain ⟨cs, hspan⟩ := ih (hfollows.orderly ho) hrest
    obtain ⟨cs₁, hspan'⟩ := Spans.of_follows ho hfollows hspan
    exact ⟨cs₁ ++ cs, hspan'⟩

/-- The predictions of a new channel are true of a driver at its start. -/
theorem synced_new (name : String) (voice : Voice) (clock : FrameClock) (tempo : Nat) :
    Synced (.new name voice clock tempo) none .initial where
  length := by simp [KnowsLength, new]
  octave := by
    intro k hk
    cases hk
    rfl
  group := rfl

/-! ### The end of a run -/

/-- The commands `cs` and the terminator `last` were appended on the way from `ch` to `ch'`. -/
structure Ends (ch : Channel) (cs : List Command) (last : Command) (ch' : Channel) : Prop where
  /-- The bytes of the commands follow those that were there. -/
  data : ch'.data.toList = ch.data.toList ++ encodeAll ch.scale (cs ++ [last])
  /-- The stream can carry the commands, and they do not end the channel. -/
  fits : ∀ c ∈ cs, c.Fits (maxLength ch.scale) ∧ c.isTerminator = false
  /-- The stream can carry the terminator. -/
  last_fits : last.Fits (maxLength ch.scale)
  /-- The terminator ends the channel. -/
  isTerminator : last.isTerminator = true
  /-- The terminator is the one for the loop point. -/
  jump : ∀ p, ch'.loopPoint = some p → ∃ offset, last = .jump offset ∧ offset.toNat = p.offset

/-- **What is left of a run plays what is left of the score**, on every driver of which the
channel's predictions are true. -/
theorem record_ends {es : List Event} {d d' : Desk} (ho : d.channel.Orderly)
    (hopen : d.channel.finished = false) (h : record es d = .ok () d') :
    ∃ cs last, Ends d.channel cs last d'.channel ∧ ∀ g x, Synced d.channel g x →
      x.hear (cs ++ [last]) =
        (d.channel.reading g).owed d.channel.pending es ++ (d.channel.reading g).score es := by
  obtain ⟨⟨⟩, d₁, hrun, hend⟩ := bind_eq_ok h
  obtain ⟨cs, hspan⟩ := applyEvents_spans es ho hrun
  obtain ⟨ws, ch, last, hf, -, -, hlast, rfl⟩ :=
    Encoding.finish_cases (hspan.finished.trans hopen) hend
  obtain ⟨-, cs', hext, hplay⟩ := hf.renders hspan.orderly
  obtain ⟨hterm, hfits, -, hjump⟩ := terminator_spec hlast
  have hall := hspan.toExtended.trans hext
  refine ⟨cs ++ cs', last, ⟨?_, hall.fits, ?_, hterm, hjump⟩, fun g x hx => ?_⟩
  · calc (ch.write last).data.toList
      _ = ch.data.toList ++ last.encode ch.scale := toList_data_write ch last
      _ = d.channel.data.toList ++ encodeAll d.channel.scale (cs ++ cs' ++ [last]) := by
          rw [hall.data, hall.scale]
          simp
  · rw [← hall.scale]
    exact hfits
  · obtain ⟨g', hsync, hscore⟩ := hspan.plays g x hx
    obtain ⟨hhear, -⟩ := hplay g' _ hsync
    -- what was still owed is written before the terminator
    rw [Driver.hear_append, Driver.hear_append, Driver.hear_terminator hterm, hhear,
      List.append_nil, hscore]

end Channel

/-! ### The whole channel -/

/-- A finished channel is read back as commands that play the score, with a terminator after
them. -/
theorem Channel.record_reads {name : String} {voice : Voice} {clock : FrameClock} {tempo : Nat}
    {session : Session} {events : List Event} {d : Desk}
    (h : record events ⟨.new name voice clock tempo, session⟩ = .ok () d) :
    ∃ cs last r, Reader.readAll (.ofBytes d.channel.data.toList) = .ok (cs ++ [last]) r ∧
      (∀ c ∈ cs, c.isTerminator = false) ∧ last.isTerminator = true ∧
      Driver.initial.hear cs = (Reading.start voice clock tempo).score events := by
  obtain ⟨cs, last, hends, hplays⟩ := record_ends (.of_none rfl) rfl h
  have hscore : Driver.initial.hear (cs ++ [last]) =
      (Reading.start voice clock tempo).score events :=
    hplays none .initial (synced_new name voice clock tempo)
  rw [Driver.hear_append, Driver.hear_terminator hends.isTerminator, List.append_nil] at hscore
  exact ⟨cs, last, _, @Reader.readAll_ofBytes clock cs last d.channel.data.toList hends.data
    hends.fits hends.last_fits hends.isTerminator, fun c hc => (hends.fits c hc).2,
    hends.isTerminator, hscore⟩

/-- **A channel plays its score.**  If a channel accepts all its events and can be ended, then its
bytes can be read back, and a driver plays from them the score of the events, tone by tone.  So does
the player: it logs the notes of the score and counts the units that the score takes. -/
theorem record_plays_score {name : String} {voice : Voice} {clock : FrameClock} {tempo : Nat}
    {session : Session} {events : List Event} {d : Desk}
    (h : record events ⟨.new name voice clock tempo, session⟩ = .ok () d) :
    ∃ cs r, Reader.readAll (.ofBytes d.channel.data.toList) = .ok cs r ∧
      Driver.initial.hear cs = (Reading.start voice clock tempo).score events ∧
      ∀ bank p,
        (Player.new clock.scale (.ofNat Channel.startOctave)).performAll bank cs = .ok p →
          p.keys = ((Reading.start voice clock tempo).score events).filterMap Tone.key? ∧
          p.elapsed = Tone.duration ((Reading.start voice clock tempo).score events) := by
  obtain ⟨cs, last, r, hread, hopen, hlast, hscore⟩ := Channel.record_reads h
  refine ⟨cs ++ [last], r, hread, ?_, fun bank p hp => ?_⟩
  · rw [Driver.hear_append, Driver.hear_terminator hlast, List.append_nil, hscore]
  · -- the player stops at the terminator
    have htake : (cs ++ [last]).takeWhile (!·.isTerminator) = cs := by
      rw [List.takeWhile_append_of_pos fun c hc => by simp [hopen c hc]]
      simp [hlast]
    obtain ⟨hkeys, helapsed⟩ := Player.performAll_hear _ hp
    rw [htake] at hkeys helapsed
    rw [← hscore]
    exact ⟨hkeys, helapsed.trans (Int.zero_add _)⟩

/-- A tie after a change of octave, a change of tempo, a loop, silence before the notes, a tuplet
with an octave of its own, and a wait that is too long for one command. -/
theorem record_plays_score_mixed :
    ∃ d, record [.octave 3, .note 61 24, .octaveUp, .tie 12, .tempo 90, .note (-2) 24, .loopPoint,
          .cutoff ⟨.frames, true, 3⟩, .note 5 24, .tupletStart, .note 5 0, .octaveDown, .note 4 0,
          .rest 0, .tupletEnd 50, .wait 9000]
        ⟨.new "A" (.physical (Chip.capabilities .sid)) ⟨60, false⟩ 120, .new .default⟩ = .ok () d ∧
      ∃ cs r, Reader.readAll (.ofBytes d.channel.data.toList) = .ok cs r ∧
        Driver.initial.hear cs =
          [.note 1 3 108, .note 10 4 120, .rest 3, .note 5 4 117, .rest 3, .note 5 4 83,
            .note 4 3 82, .rest 82, .wait 16383, .wait 16383, .wait 12234] := by
  refine Encoding.exists_of_succeeds (by decide +kernel) fun d hd => ?_
  obtain ⟨cs, r, hread, hscore, -⟩ := record_plays_score hd
  exact ⟨cs, r, hread, hscore.trans (by decide +kernel)⟩

end Chiptune
