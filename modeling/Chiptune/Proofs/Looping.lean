import Chiptune.Proofs.Fidelity

/-!
# Loops replay

A channel with a loop ends with a jump to its loop point.  The driver comes to that point from the
bytes before it, and then again and again from the end of the channel, each time with another
octave and another delay.  What it plays from there does not depend on them, so every pass is the
same.

The argument is that a channel expects nothing of the driver where its loop begins.  From there on
its predictions are true of every driver, and drivers of which they are true play the same.

## Main results

* `record_loopPoint` — only its own event moves the loop point.
* `record_replays` — a loop plays the same tones on every pass.
-/

namespace Chiptune

open Command

/-! ### The last loop point -/

/-- Events with a loop point have a last one. -/
private theorem exists_last_loopPoint {events : List Event} (h : .loopPoint ∈ events) :
    ∃ before after, events = before ++ .loopPoint :: after ∧ Event.loopPoint ∉ after := by
  obtain ⟨as, bs, heq, hnot⟩ := List.eq_append_cons_of_mem (List.mem_reverse.mpr h)
  refine ⟨bs.reverse, as.reverse, ?_, by simpa using hnot⟩
  rw [← List.reverse_reverse events, heq]
  simp

/-- The first event of a recording is accepted, and the others are recorded. -/
theorem record_cons_eq_ok {e : Event} {es : List Event} {d d' : Desk}
    (h : record (e :: es) d = .ok () d') :
    ∃ d₁, e.apply d = .ok () d₁ ∧ record es d₁ = .ok () d' := by
  obtain ⟨⟨⟩, d₂, hrun, hend⟩ := bind_eq_ok h
  obtain ⟨d₁, he, hes⟩ := forM_cons_eq_ok hrun
  have hes : applyEvents es d₁ = .ok () d₂ := hes
  refine ⟨d₁, he, ?_⟩
  rw [record, Encoding.bind_apply, hes]
  exact hend

theorem record_append_eq_ok {es es' : List Event} {d d' : Desk}
    (h : record (es ++ es') d = .ok () d') :
    ∃ d₁, applyEvents es d = .ok () d₁ ∧ record es' d₁ = .ok () d' := by
  induction es generalizing d with
  | nil => exact ⟨d, rfl, h⟩
  | cons e es ih =>
    obtain ⟨d₀, he, hrest⟩ := record_cons_eq_ok h
    obtain ⟨d₁, hes, hend⟩ := ih hrest
    refine ⟨d₁, ?_, hend⟩
    have hcons : applyEvents (e :: es) = (e.apply >>= fun _ => applyEvents es) := rfl
    rw [hcons, Encoding.bind_apply, he]
    exact hes

/-- An accepted event other than the loop point leaves the loop point where it is. -/
theorem applyEvents_loopPoint : ∀ {es : List Event} {d d' : Desk}, .loopPoint ∉ es →
    applyEvents es d = .ok () d' → d'.channel.loopPoint = d.channel.loopPoint := by
  intro es
  induction es with
  | nil => intro d d' _ h; cases h; rfl
  | cons e es ih =>
    intro d d' hnot h
    rw [List.mem_cons, not_or] at hnot
    obtain ⟨d₁, happly, hrest⟩ := forM_cons_eq_ok h
    obtain ⟨ws, hacc, -⟩ := Event.accepted_of_ok happly
    rcases hacc.loopPoint_cases with ⟨-, hsame⟩ | ⟨rfl, -⟩
    · exact (ih hnot.2 hrest).trans hsame
    · exact absurd rfl hnot.1

/-- Only its own event moves the loop point. -/
theorem record_loopPoint {es : List Event} {d d' : Desk} (hnot : .loopPoint ∉ es)
    (ho : d.channel.Orderly) (hopen : d.channel.finished = false)
    (h : record es d = .ok () d') : d'.channel.loopPoint = d.channel.loopPoint := by
  obtain ⟨⟨⟩, d₁, hrun, hend⟩ := bind_eq_ok h
  obtain ⟨cs, hspan⟩ := Channel.applyEvents_spans es ho hrun
  obtain ⟨ws, ch, last, hf, -, -, -, rfl⟩ :=
    Encoding.finish_cases (hspan.finished.trans hopen) hend
  exact hf.loopPoint.trans (applyEvents_loopPoint hnot hrun)

/-! ### The loop -/

/-- **Where a loop begins, the channel expects nothing of the driver.** -/
theorem loopPoint_begins {d d' : Desk} (ho : d.channel.Orderly)
    (h : Event.loopPoint.apply d = .ok () d') :
    ∃ cs, Channel.Extended d.channel cs d'.channel ∧ d'.channel.Orderly ∧
      (∃ p, d'.channel.loopPoint = some p ∧ p.offset = d'.channel.data.size) ∧
      ∀ x, Channel.Synced d'.channel none x := by
  obtain ⟨ws, hacc, -⟩ := Event.accepted_of_ok h
  obtain ⟨ts, hrender, -⟩ := hacc.follows ho
  obtain ⟨ho', cs, hext, -⟩ := hrender ho
  rcases hacc.loopPoint_cases with ⟨hne, -⟩ | ⟨-, ch₁, ht, hmark⟩
  · exact absurd rfl hne
  · rw [hmark] at hext ho' ⊢
    exact ⟨cs, hext, ho', ⟨_, rfl, rfl⟩, Channel.synced_markLoop ht⟩

/-- Playing a stream of which every driver plays the same, again and again. -/
theorem Driver.hear_replicate {cs : List Command} {ts : List Tone}
    (h : ∀ x : Driver, x.hear cs = ts) (n : Nat) (d : Driver) :
    d.hear (List.replicate n cs).flatten = (List.replicate n ts).flatten := by
  induction n generalizing d with
  | zero => rfl
  | succ n ih => simp only [List.replicate_succ, List.flatten_cons, hear_append, h, ih]

/-- A recording with a loop point is cut there: what comes before it is held by a channel that
expects nothing of the driver, and the rest is recorded from that channel. -/
theorem record_cut {name : String} {voice : Voice} {clock : FrameClock} {tempo : Nat}
    {session : Session} {events : List Event} {d : Desk} (hloop : .loopPoint ∈ events)
    (h : record events ⟨.new name voice clock tempo, session⟩ = .ok () d) :
    ∃ d₁ rest before p, record rest d₁ = .ok () d ∧ d₁.channel.Holds before ∧
      d₁.channel.Orderly ∧ d₁.channel.finished = false ∧
      (∀ x, Channel.Synced d₁.channel none x) ∧
      d.channel.loopPoint = some p ∧ p.offset = d₁.channel.data.size := by
  obtain ⟨es, rest, rfl, hnot⟩ := exists_last_loopPoint hloop
  obtain ⟨d₀, hrun, hfrom⟩ := record_append_eq_ok h
  obtain ⟨d₁, hmark, hrest⟩ := record_cons_eq_ok hfrom
  obtain ⟨cs, hspan⟩ := Channel.applyEvents_spans es (.of_none rfl) hrun
  obtain ⟨cs', hext, ho, ⟨p, hp, hoffset⟩, hsync⟩ := loopPoint_begins hspan.orderly hmark
  have hbefore := hspan.toExtended.trans hext
  have hheld := (Channel.legible_new name voice clock tempo).toHolds.extended hbefore
  have hopen : d₁.channel.finished = false := hbefore.finished
  exact ⟨d₁, rest, _, p, hrest, hheld, ho, hopen, hsync,
    (record_loopPoint hnot ho hopen hrest).trans hp, hoffset⟩

/-- **A loop replays on every pass.**  If a channel accepts all its events, a loop point among them,
and can be ended, then the commands from the loop point on can be read back by themselves.  They
play the same tones whatever the octave and the delay with which the driver arrives: after the bytes
before the loop point, and after every pass through the loop.  These tones are what the score has
from the loop point on. -/
theorem record_replays {name : String} {voice : Voice} {clock : FrameClock} {tempo : Nat}
    {session : Session} {events : List Event} {d : Desk} (hloop : .loopPoint ∈ events)
    (h : record events ⟨.new name voice clock tempo, session⟩ = .ok () d) :
    ∃ p before loop tones r r', d.channel.loopPoint = some p ∧
      Reader.readAll (.ofBytes d.channel.data.toList) = .ok (before ++ loop) r ∧
      Reader.readAll (.ofBytes (d.channel.data.toList.drop p.offset)) = .ok loop r' ∧
      (∃ offset, loop.getLast? = some (.jump offset) ∧ offset.toNat = p.offset) ∧
      (∀ x : Driver, x.hear loop = tones) ∧
      Driver.initial.hear before ++ tones = (Reading.start voice clock tempo).score events ∧
      ∀ passes, Driver.initial.hear (before ++ (List.replicate passes loop).flatten) =
        Driver.initial.hear before ++ (List.replicate passes tones).flatten := by
  obtain ⟨d₁, rest, before, p, hrest, hheld, ho, hopen, hsync, hp, hoffset⟩ := record_cut hloop h
  -- the predictions at the loop point are true of every driver, so every driver plays the same
  obtain ⟨body, last, hends, hplays⟩ := Channel.record_ends ho hopen hrest
  have hsame := fun x => hplays none x (hsync x)
  obtain ⟨offset, rfl, hjump⟩ := hends.jump p hp
  -- the bytes as a whole, and from the loop point on
  have hwhole : d.channel.data.toList =
      encodeAll d₁.channel.clock.scale (before ++ body ++ [.jump offset]) := by
    rw [hends.data, hheld.data, ← encodeAll_append, List.append_assoc]
    rfl
  have htail : d.channel.data.toList.drop p.offset =
      encodeAll d₁.channel.clock.scale (body ++ [.jump offset]) := by
    rw [hends.data, hoffset, ← Array.length_toList, List.drop_left]
    rfl
  have hfits : ∀ c ∈ before ++ body,
      c.Fits (maxLength d₁.channel.scale) ∧ c.isTerminator = false :=
    fun c hc => (List.mem_append.mp hc).elim (hheld.fits c) (hends.fits c)
  have hread := Reader.readAll_ofBytes hwhole hfits trivial rfl
  rw [List.append_assoc] at hread
  have hreadTail := Reader.readAll_ofBytes htail hends.fits trivial rfl
  refine ⟨p, before, body ++ [.jump offset], _, _, _, hp, hread, hreadTail,
    ⟨offset, by simp, hjump⟩, hsame, ?_, fun passes => ?_⟩
  · -- the commands are those that are known to play the score
    obtain ⟨cs, last, r, hreadAll, -, hlast, hscore⟩ := Channel.record_reads h
    rw [hread] at hreadAll
    injection hreadAll with hcommands
    calc Driver.initial.hear before ++ _
      _ = Driver.initial.hear (before ++ (body ++ [.jump offset])) := by
          rw [Driver.hear_append _ before, hsame]
      _ = (Reading.start voice clock tempo).score events := by
          rw [hcommands, Driver.hear_append, Driver.hear_terminator hlast, List.append_nil, hscore]
  · rw [Driver.hear_append, Driver.hear_replicate hsame]

/-- Two loop points, of which the second counts.  The loop begins with a tuplet, whose notes need
markers for their octaves. -/
theorem record_replays_tuplet :
    ∃ d, record [.note 0 24, .loopPoint, .octave 2, .note 4 24, .loopPoint, .tupletStart, .note 5 0,
          .octaveUp, .note 6 0, .tupletEnd 24, .note 7 12, .blockEnd, .rest 24]
        ⟨.new "B" .pattern ⟨50, true⟩ 125, .new .default⟩ = .ok () d ∧
      ∃ p loop tones r, d.channel.loopPoint = some p ∧
        Reader.readAll (.ofBytes (d.channel.data.toList.drop p.offset)) = .ok loop r ∧
        ∀ x : Driver, x.hear loop = tones := by
  refine Encoding.exists_of_succeeds (by decide +kernel) fun d hd => ?_
  obtain ⟨p, -, loop, tones, -, r, hp, -, hread, -, hsame, -, -⟩ := record_replays (by decide) hd
  exact ⟨p, loop, tones, r, hp, hread, hsame⟩

end Chiptune
