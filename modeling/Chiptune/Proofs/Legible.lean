import Chiptune.Proofs.Following

/-!
# The bytes of a channel are whole commands

Whatever events a channel is given, and whichever of them it refuses, its bytes are those of some
commands, none of which ends the channel.  They can be read back one after the other up to the end
of the bytes, and the loop point lies between two of them.  A channel that has ended has one command
more, its terminator.

## Main definitions

* `Event.attempt`, `attemptAll` — events one after the other, also after refused ones.
* `Channel.Holds` — the bytes of a channel are some commands.
* `Channel.Legible` — the same with the loop point, the delay and the time of the channel.
* `Channel.Readable` — what is found when a channel is read command by command.

## Main results

* `Channel.Legible.attempt` — every event keeps a channel legible.
* `attemptAll_readable` — a channel can be read at every point, and has one terminator at its end.
-/

namespace Chiptune

open Command

/-- What an event leaves behind, accepted or refused. -/
def Event.attempt (d : Desk) (e : Event) : Desk :=
  match e.apply d with
  | .ok _ d' => d'
  | .error _ d' => d'

/-- Events one after the other.  The next one is given to the channel also after a refused one. -/
def attemptAll (events : List Event) (d : Desk) : Desk := events.foldl Event.attempt d

namespace Channel

variable {ch ch' : Channel} {clock : FrameClock} {cs cs' : List Command}

/-! ### Commands in a channel -/

/-- The bytes of the channel are the commands `cs`, which do not end it. -/
structure Holds (ch : Channel) (cs : List Command) : Prop where
  /-- The bytes are those of the commands. -/
  data : ch.data.toList = encodeAll ch.scale cs
  /-- The stream can carry the commands. -/
  fits : ∀ c ∈ cs, c.Fits (maxLength ch.scale) ∧ c.isTerminator = false

theorem Holds.extended (h : Holds ch cs) (hext : Extended ch cs' ch') : Holds ch' (cs ++ cs') where
  data := by rw [hext.data, h.data, hext.scale, encodeAll_append]
  fits := by
    intro c hc
    rw [hext.scale]
    exact (List.mem_append.mp hc).elim (h.fits c) (hext.fits c)

theorem Holds.size (h : Holds ch cs) : ch.data.size = (encodeAll ch.scale cs).length := by
  rw [← h.data, Array.length_toList]

/-- The commands are found at their positions, and nothing after them. -/
theorem Holds.steps (h : Holds ch cs) :
    Reader.steps (.ofBytes ch.data.toList) =
      (marks ch.scale 0 cs, .stream ch.data.size .endOfData, ch.data.size) := by
  have hsteps := @Reader.steps_encodeAll ch.clock cs 0 fun c hc => (h.fits c hc).1
  rw [Nat.zero_add] at hsteps
  rw [h.size, h.data]
  exact hsteps

/-- The commands are read with the one that ends the channel, and no byte is left. -/
theorem Holds.readAll_write (h : Holds ch cs) {last : Command}
    (hfits : last.Fits (maxLength ch.scale)) (hlast : last.isTerminator = true) :
    Reader.readAll (.ofBytes (ch.write last).data.toList) =
      .ok (cs ++ [last]) ⟨(ch.write last).data.size, []⟩ := by
  rw [← Array.length_toList]
  refine @Reader.readAll_ofBytes ch.clock cs last _ ?_ h.fits hfits hlast
  rw [toList_data_write, h.data]
  simp [scale]

/-! ### The end of a channel -/

/-- The terminator ends the channel, and jumps to the loop point if there is one. -/
theorem terminator_spec {last : Command} (h : ch.terminator = .ok last) :
    last.isTerminator = true ∧ last.Fits (maxLength ch.scale) ∧
      (ch.loopPoint = none → last = .stop) ∧
      ∀ p, ch.loopPoint = some p → ∃ offset, last = .jump offset ∧ offset.toNat = p.offset := by
  unfold terminator at h
  split at h
  · next hp =>
    cases h
    exact ⟨rfl, trivial, fun _ => rfl, by simp [hp]⟩
  · next p hp =>
    split at h
    · -- the offset is checked before it becomes an operand, so it is not truncated
      next hle =>
      cases h
      refine ⟨rfl, trivial, by simp [hp], fun q hq => ⟨_, rfl, ?_⟩⟩
      rw [hp] at hq
      cases hq
      rw [maxJump] at hle
      rw [UInt16.toNat_ofNat']
      omega
    · cases h

/-! ### Legible channels -/

/-- The bytes of the channel are the commands `cs`, its loop point is between two of them, and it
has counted what a driver plays from its start. -/
structure Legible (ch : Channel) (clock : FrameClock) (cs : List Command) : Prop
    extends Holds ch cs where
  /-- The channel is for a driver with this clock. -/
  clock : ch.clock = clock
  /-- The loop point is after some of the commands. -/
  loop : ∀ p, ch.loopPoint = some p → ∃ before, before <+: cs ∧
    p.offset = (encodeAll ch.scale before).length
  /-- The delay of a driver is the expected one. -/
  length : ch.KnowsLength (Driver.initial.run cs)
  /-- The units written are those that a driver plays. -/
  elapsed : ch.elapsed = Tone.duration (Driver.initial.hear cs)
  /-- The open tuplet is in order. -/
  orderly : ch.Orderly
  /-- The channel has not ended. -/
  unfinished : ch.finished = false

theorem legible_new (name : String) (voice : Voice) (clock : FrameClock) (tempo : Nat) :
    Legible (.new name voice clock tempo) clock [] where
  clock := rfl
  data := by simp [new]
  fits := by simp
  loop := by simp [new]
  length := by simp [KnowsLength, new]
  elapsed := rfl
  orderly := .of_none rfl
  unfinished := rfl

/-- Commands are appended, and the loop point stays or comes to the end of them. -/
theorem Legible.extended (h : Legible ch clock cs) (hext : Extended ch cs' ch') (ho : ch'.Orderly)
    (hloop : ch'.loopPoint = ch.loopPoint ∨ ∃ ch₁ : Channel, ch' = ch₁.markLoop) :
    Legible ch' clock (cs ++ cs') where
  toHolds := h.toHolds.extended hext
  clock := hext.clock.trans h.clock
  loop := by
    intro p hp
    rcases hloop with hsame | ⟨ch₁, rfl⟩
    · -- the commands before the loop point are still a first part of all
      obtain ⟨before, hpre, hoff⟩ := h.loop p (by rw [← hsame]; exact hp)
      exact ⟨before, hpre.trans (List.prefix_append cs cs'), by rw [hext.scale]; exact hoff⟩
    · -- the loop point is where the bytes end now
      cases hp
      exact ⟨cs ++ cs', List.prefix_refl _, (h.toHolds.extended hext).size⟩
  length := by
    rw [Driver.run_append]
    exact hext.length _ h.length
  elapsed := by
    rw [hext.elapsed _ h.length, h.elapsed, Driver.hear_append, Tone.duration_append]
  orderly := ho
  unfinished := hext.finished.trans h.unfinished

/-- **Every event keeps a channel legible**, accepted or refused. -/
theorem Legible.attempt {d : Desk} (h : Legible d.channel clock cs) (e : Event) :
    ∃ cs', Legible (e.attempt d).channel clock (cs ++ cs') := by
  unfold Event.attempt
  rcases Event.apply_cases e d with ⟨ws, ch, s, hacc, hr, -⟩ | ⟨err, ch, s, href, hr⟩
  · obtain ⟨ts, hrender, -⟩ := hacc.follows h.orderly
    obtain ⟨ho, cs', hext, -⟩ := hrender h.orderly
    rw [hr]
    refine ⟨cs', h.extended hext ho ?_⟩
    rcases hacc.loopPoint_cases with ⟨-, hsame⟩ | ⟨-, ch₁, -, hmark⟩
    · exact Or.inl hsame
    · exact Or.inr ⟨ch₁, hmark⟩
  · obtain ⟨ho, ⟨cs', hext⟩, hsame⟩ := href.extended h.orderly
    rw [hr]
    exact ⟨cs', h.extended hext ho (Or.inl hsame)⟩

theorem Legible.attemptAll : ∀ (events : List Event) {d : Desk} {cs : List Command},
    Legible d.channel clock cs →
      ∃ cs', Legible (attemptAll events d).channel clock (cs ++ cs') := by
  intro events
  induction events with
  | nil => intro d cs h; exact ⟨[], by rw [List.append_nil]; exact h⟩
  | cons e events ih =>
    intro d cs h
    obtain ⟨cs₁, h₁⟩ := h.attempt e
    obtain ⟨cs₂, h₂⟩ := ih h₁
    exact ⟨cs₁ ++ cs₂, by rw [← List.append_assoc]; exact h₂⟩

/-- The sound that was waiting is written into a legible channel. -/
theorem Legible.flushed (h : Legible ch clock cs) {ws : List Warning} (hf : Flushed ch ws ch') :
    ∃ cs', Legible ch' clock (cs ++ cs') := by
  obtain ⟨ho, cs', hext, -⟩ := hf.renders h.orderly
  exact ⟨cs', h.extended hext ho (Or.inl hf.loopPoint)⟩

end Channel

/-! ### Reading a channel -/

/-- The place after some of the commands of a stream is the start or one of the positions met. -/
theorem Command.mem_marks_of_isPrefix (scale : Int) : ∀ {before cs : List Command} (start : Nat),
    before <+: cs → start + (encodeAll scale before).length ∈
      start :: (marks scale start cs).map (·.2) := by
  intro before
  induction before with
  | nil => intro cs start _; simp
  | cons c before ih =>
    intro cs start h
    cases cs with
    | nil => simp at h
    | cons c' cs =>
      obtain ⟨rfl, hpre⟩ := List.cons_prefix_cons.mp h
      have := ih (start + (c.encode scale).length) hpre
      rw [encodeAll_cons, List.length_append, ← Nat.add_assoc, marks, List.map_cons]
      exact List.mem_cons_of_mem _ this

theorem Command.map_fst_marks (scale : Int) : ∀ (start : Nat) (cs : List Command),
    (marks scale start cs).map (·.1) = cs := by
  intro start cs
  induction cs generalizing start with
  | nil => rfl
  | cons c cs ih => rw [marks, List.map_cons, ih]

theorem Command.mem_of_mem_marks {scale : Int} {start : Nat} {cs : List Command}
    {x : Command × Nat} (h : x ∈ marks scale start cs) : x.1 ∈ cs := by
  rw [← map_fst_marks scale start cs]
  exact List.mem_map_of_mem h

namespace Channel

/-- Reading the channel command by command gives `read`, the commands with the positions after
them, and fails only where the bytes end. -/
structure Readable (ch : Channel) (clock : FrameClock) (read : List (Command × Nat)) : Prop where
  /-- The reader takes all bytes. -/
  steps : Reader.steps (.ofBytes ch.data.toList) =
    (read, .stream ch.data.size .endOfData, ch.data.size)
  /-- No command ends the channel. -/
  unended : ∀ x ∈ read, x.1.isTerminator = false
  /-- Delays are within bounds, and their operands hold all of them. -/
  delays : ∀ x ∈ read, ∀ n, x.1.delay? = some n →
    0 ≤ n ∧ n ≤ maxLength clock.scale ∧ Delay.Fits n clock.scale
  /-- The bytes are those of the commands that are read. -/
  bytes : ch.data.toList = encodeAll clock.scale (read.map (·.1))
  /-- The units that the channel has counted are those that a driver plays. -/
  elapsed : ch.elapsed = Tone.duration (Driver.initial.hear (read.map (·.1)))
  /-- The loop point is the start or the place after one of the commands. -/
  loop : ∀ p, ch.loopPoint = some p → p.offset ∈ 0 :: read.map (·.2)

theorem Legible.readable {ch : Channel} {clock : FrameClock} {cs : List Command}
    (h : Legible ch clock cs) : ch.Readable clock (marks clock.scale 0 cs) := by
  have hscale : ch.scale = clock.scale := congrArg FrameClock.scale h.clock
  have hfst : (marks clock.scale 0 cs).map (·.1) = cs := map_fst_marks _ _ _
  constructor
  · rw [← hscale]
    exact h.steps
  · intro x hx
    exact (h.fits x.1 (mem_of_mem_marks hx)).2
  · intro x hx n hn
    have hfits := (h.fits x.1 (mem_of_mem_marks hx)).1
    rw [hscale] at hfits
    obtain ⟨h0, hmax⟩ := hfits.delay hn
    exact ⟨h0, hmax, Delay.fits_of_le_maxLength h0 hmax⟩
  · rw [hfst, ← hscale]
    exact h.data
  · rw [hfst]
    exact h.elapsed
  · intro p hp
    obtain ⟨before, hpre, hoff⟩ := h.loop p hp
    rw [hoff, hscale, ← Nat.zero_add (encodeAll _ _).length]
    exact mem_marks_of_isPrefix _ 0 hpre

end Channel

/-- **A channel can be read at every point.**  Whatever events it was given, and whichever of them
it refused, its bytes are whole commands that do not end it, with delays within their bounds, and
its loop point lies between two of them.  If the channel can be ended, that adds one command after
the sound that was waiting: a jump to the loop point, or the end of the channel if there is none.
Then reading the channel takes all of its bytes, and the terminator is the last command and the only
one of its kind. -/
theorem attemptAll_readable (name : String) (voice : Voice) (clock : FrameClock) (tempo : Nat)
    (session : Session) (events : List Event) :
    let d := attemptAll events ⟨.new name voice clock tempo, session⟩
    (∃ read, d.channel.Readable clock read) ∧
    ∀ d', Encoding.finish d = .ok () d' → ∃ d₁ read last r,
      Encoding.flush d = .ok () d₁ ∧ d₁.channel.Readable clock read ∧
      d'.channel.data.toList = d₁.channel.data.toList ++ last.encode clock.scale ∧
      d'.channel.loopPoint = d.channel.loopPoint ∧
      (d.channel.loopPoint = none → last = .stop) ∧
      (∀ p, d.channel.loopPoint = some p →
        ∃ offset, last = .jump offset ∧ offset.toNat = p.offset) ∧
      Reader.readAll (.ofBytes d'.channel.data.toList) = .ok (read.map (·.1) ++ [last]) r ∧
      r.position = d'.channel.data.size := by
  intro d
  obtain ⟨cs, hlegible⟩ := Channel.Legible.attemptAll events
    (d := ⟨.new name voice clock tempo, session⟩) (Channel.legible_new name voice clock tempo)
  rw [List.nil_append] at hlegible
  refine ⟨⟨_, hlegible.readable⟩, fun d' hend => ?_⟩
  obtain ⟨ws, ch, last, hf, hflush, -, hlast, rfl⟩ :=
    Encoding.finish_cases hlegible.unfinished hend
  obtain ⟨cs', hlegible'⟩ := hlegible.flushed hf
  obtain ⟨hterm, hfits, hstop, hjump⟩ := Channel.terminator_spec hlast
  rw [hf.loopPoint] at hstop hjump
  refine ⟨_, _, last, ⟨(ch.write last).data.size, []⟩, hflush, hlegible'.readable, ?_,
    hf.loopPoint, hstop, hjump, ?_, rfl⟩
  · rw [← congrArg FrameClock.scale hlegible'.clock]
    exact Channel.toList_data_write ch last
  · rw [map_fst_marks]
    exact hlegible'.readAll_write hfits hterm

/-- Octaves, volumes and tempos out of range, a loop within a tuplet and the end of a tuplet that is
not open are refused; the channel goes on and ends with a jump. -/
theorem attemptAll_readable_refused :
    ∃ d', Encoding.finish (attemptAll
        [.volume 7, .octave 3, .note 61 24, .tie 12, .octaveUp, .note (-2) 24, .octave 99,
          .loopPoint, .tempo 0, .volume 300, .note 5 24, .tupletStart, .loopPoint, .note 5 0,
          .octaveDown, .note 4 0, .rest 0, .tupletEnd 48, .tupletEnd 48, .blockEnd, .wait 5000,
          .note 0 24]
        ⟨.new "A" (.physical (Chip.capabilities .sid)) ⟨60, true⟩ 120, .new .default⟩) =
          .ok () d' ∧
      ∃ cs offset r, Reader.readAll (.ofBytes d'.channel.data.toList) =
          .ok (cs ++ [.jump offset]) r ∧ offset.toNat = 11 ∧ r.position = d'.channel.data.size := by
  refine Encoding.exists_of_succeeds (by decide +kernel) fun d' hend => ?_
  obtain ⟨-, read, last, r, -, -, -, -, -, hjump, hread, hpos⟩ :=
    (attemptAll_readable _ _ _ _ _ _).2 d' hend
  obtain ⟨offset, rfl, hoffset⟩ := hjump ⟨11, 60⟩ (by decide +kernel)
  exact ⟨_, offset, r, hread, hoffset, hpos⟩

end Chiptune
