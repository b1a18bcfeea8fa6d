import Chiptune.Proofs.Arpeggio

/-!
# What an arpeggio leaves behind

An arpeggio that is switched off is taken away from the channel, but the semitones that it has added
last are a value of the channel, and they stay.  All notes after that are higher by them, in all of
their frames, until an arpeggio is switched on again.  Only where no arpeggio has left anything do
the notes sound as they are written.

What carries the proof is that without a macro that bends no step moves the semitones
(`PlayChannel.Unbent`).

## Main definitions

* `PlayChannel.Unbent` — no macro bends, and some semitones are on top of the note.
* `PlayedNote.trace` — the semitones of a note that is not bent.

## Main results

* `PlayChannel.Unbent.startNote`, `PlayChannel.Unbent.updateFrame` — a note begins, and goes on.
* `Player.unbent_disable` — an arpeggio is switched off.
* `PlayChannel.Unbent.playNote`, `PlayChannel.Unbent.performAll` — what a note plays, and some
  commands.
* `play_arpeggio_off` — the semitones stay when an arpeggio is switched off.
* `not_arpeggio_off_restores` — the pitches as written do not come back.
-/

namespace Chiptune

theorem PlayState.effectiveNote_of_pitch {s : PlayState} {note octave offset : Int}
    (h : s.pitch = (note, octave, offset)) : s.effectiveNote = 12 * octave + note + offset := by
  obtain ⟨rfl, rfl, rfl⟩ : s.note = note ∧ s.octave = octave ∧ s.noteOffset = offset := by
    simpa [pitch] using h
  rw [effectiveNote]
  omega

/-- The semitones in the frames of a note that is not bent, with some others on top of it. -/
def PlayedNote.trace (offset : Int) (n : PlayedNote) : List Int :=
  List.replicate n.frames.toNat (12 * n.octave.toNat + n.pitch.toNat + offset)

/-! ### Notes -/

namespace PlayChannel

/-- No macro of the channel bends, and some semitones are on top of the note. -/
structure Unbent (offset : Int) (c : PlayChannel) : Prop where
  /-- No macro bends. -/
  none : c.macros.filter (·.bends) = []
  /-- The semitones on top of the note. -/
  level : c.state.noteOffset = offset

variable {offset : Int} {c c' : PlayChannel}

theorem Unbent.congr (h : c.Unbent offset)
    (hmacros : c'.macros.filter (·.bends) = c.macros.filter (·.bends))
    (hlevel : c'.state.noteOffset = c.state.noteOffset) : c'.Unbent offset :=
  ⟨hmacros.trans h.none, hlevel.trans h.level⟩

/-- Without a macro that bends, no step moves the pitch. -/
theorem Unbent.stepAll (h : c.Unbent offset) (trigger : Pace) :
    (c.stepAll trigger).Unbent offset ∧ (c.stepAll trigger).state.pitch = c.state.pitch := by
  obtain ⟨hmacros, hpitch⟩ := c.stepAll_bends trigger
  rw [h.none] at hmacros hpitch
  have hlevel : (c.stepAll trigger).state.noteOffset = c.state.noteOffset :=
    congrArg (·.2.2) hpitch
  exact ⟨⟨hmacros, hlevel.trans h.level⟩, hpitch⟩

/-- **A note begins.** -/
theorem Unbent.startNote (h : c.Unbent offset) (note octave : Int) :
    (c.startNote note octave).Unbent offset ∧
      (c.startNote note octave).state.pitch = (note, octave, offset) := by
  have hbegun : ({ c with state := { c.state with
      note := note, octave := octave, noteOn := true, valueChanged := false } } :
      PlayChannel).Unbent offset := h.congr rfl rfl
  obtain ⟨hunbent, hpitch⟩ := hbegun.stepAll .note
  refine ⟨hunbent, hpitch.trans ?_⟩
  rw [← h.level]
  rfl

/-- **A note goes on.** -/
theorem Unbent.updateFrame (h : c.Unbent offset) :
    c.updateFrame.Unbent offset ∧ c.updateFrame.state.pitch = c.state.pitch := by
  have hlowered : ({ c with state := { c.state with noteOn := false, valueChanged := false } } :
      PlayChannel).Unbent offset := h.congr rfl rfl
  exact hlowered.stepAll .frame

theorem Unbent.iterate (h : c.Unbent offset) (j : Nat) :
    (PlayChannel.updateFrame^[j] c).Unbent offset ∧
      (PlayChannel.updateFrame^[j] c).state.pitch = c.state.pitch := by
  induction j with
  | zero => exact ⟨h, rfl⟩
  | succ j ih =>
    obtain ⟨hunbent, hpitch⟩ := ih
    rw [Function.iterate_succ_apply']
    exact ⟨hunbent.updateFrame.1, hunbent.updateFrame.2.trans hpitch⟩

end PlayChannel

/-! ### Commands -/

/-- Whether a command switches an arpeggio on. -/
def Command.startsArpeggio : Command → Bool
  | effectOn effect _ => effect = .arpeggio
  | _ => false

/-- A command about arpeggios that does not switch one on switches it off. -/
theorem Command.eq_of_endsArpeggio {c : Command} (h : c.endsArpeggio = true)
    (hopen : c.isTerminator = false) (hstart : c.startsArpeggio = false) :
    c = .effectOff .arpeggio := by
  cases c with
  | effectOff effect => rw [of_decide_eq_true h]
  | effectOn effect operand => exact absurd (h.symm.trans hstart) (by decide)
  | jump | stop => cases hopen
  | _ => cases h

/-- **An arpeggio is switched off**, and its semitones stay. -/
theorem Player.unbent_disable (p : Player) :
    (p.disable .arpeggio).channel.Unbent p.channel.state.noteOffset := by
  have hchannel : (p.disable .arpeggio).channel = p.channel.detach (.arpeggio false) := rfl
  rw [hchannel]
  exact ⟨PlayChannel.filter_detach p.channel (.arpeggio false) (.arpeggio false), rfl⟩

namespace PlayChannel

variable {offset : Int} {p p' : Player} {bank : MacroBank}

/-- **A note that is not bent is the same in all of its frames.** -/
theorem Unbent.playNote (h : p.channel.Unbent offset) {i : Nat} (pitch : UInt8) :
    ∃ notes, p.Plays (fun _ n => n.trace offset) (fun _ c => c.Unbent offset) i (p.playNote pitch)
      notes := by
  obtain ⟨hbegun, hpitch⟩ := h.startNote pitch.toNat p.octave.toNat
  refine Player.Plays.playNote ?_ fun j => (hbegun.iterate j).1
  rintro n rfl hoctave
  rw [PlayedNote.trace, hoctave, List.eq_replicate_iff]
  refine ⟨by simp, fun x hx => ?_⟩
  obtain ⟨j, -, rfl⟩ := List.mem_map.mp hx
  exact PlayState.effectiveNote_of_pitch ((hbegun.iterate j).2.trans hpitch)

/-- A command that switches no arpeggio on leaves the semitones as they are. -/
theorem Unbent.perform_quiet (h : p.channel.Unbent offset) {c : Command}
    (hc : c.isTerminator = false ∧ c.startsArpeggio = false) (hpitch : c.pitch? = .none)
    (hp : p.perform bank c = .ok p') : p'.channel.Unbent offset := by
  cases hends : c.endsArpeggio with
  | false =>
    obtain ⟨hmacros, hlevel⟩ := Player.perform_bends hends hpitch hp
    exact h.congr hmacros hlevel
  | true =>
    -- an arpeggio is switched off that was not on
    obtain rfl := Command.eq_of_endsArpeggio hends hc.1 hc.2
    cases hp
    rw [← h.level]
    exact p.unbent_disable

/-- **What commands play** without a macro that bends. -/
theorem Unbent.performAll {cs : List Command} (h : p.channel.Unbent offset)
    (hcs : ∀ c ∈ cs, c.isTerminator = false ∧ c.startsArpeggio = false)
    (hp : p.performAll bank cs = .ok p') :
    ∃ notes, p'.notes.toList = p.notes.toList ++ notes ∧
      p'.pitchTrace.toList = p.pitchTrace.toList ++ notes.flatMap (·.trace offset) ∧
      p'.channel.Unbent offset := by
  have hplays : ∃ notes,
      p.Plays (fun _ n => n.trace offset) (fun _ c => c.Unbent offset) 0 p' notes :=
    Player.Plays.performAll (fun c hc => hc.1) (fun h => h.playNote)
      (fun hc hpitch hp h => h.perform_quiet hc hpitch hp) h hcs hp
  obtain ⟨notes, hnotes, htrace, hunbent⟩ := hplays
  -- the number of a note does not matter
  have hmap : (notes.mapIdx fun _ n => n.trace offset) = notes.map (·.trace offset) :=
    List.ext_getElem (by simp) (by simp)
  rw [hmap] at htrace
  exact ⟨notes, hnotes, htrace, hunbent⟩

end PlayChannel

/-! ### Streams -/

/-- **The semitones stay when an arpeggio is switched off.**  A stream is played, and in it an
arpeggio is switched off.  Up to the next command that switches one on, or up to the end, the notes
of the stream are logged with the same semitones in all of their frames, which are those of the note
as it is written and those that the channel had on top of it.  There are none if no arpeggio was on
before. -/
theorem play_arpeggio_off {bank : MacroBank} {scale : Int} {octave : UInt8}
    {before body after : List Command} {log : PlayLog}
    (hplay : play bank scale octave (before ++ .effectOff .arpeggio :: (body ++ after)) = .ok log)
    (hbefore : ∀ c ∈ before, c.isTerminator = false)
    (hbody : ∀ c ∈ body, c.isTerminator = false ∧ c.startsArpeggio = false) :
    ∃ log₀ log₁ notes,
      play bank scale octave before = .ok log₀ ∧
      play bank scale octave (before ++ .effectOff .arpeggio :: body) = .ok log₁ ∧
      log₁.notes.toList = log₀.notes.toList ++ notes ∧
      notes.map (fun n => (n.pitch.toNat, n.octave.toNat)) =
        (((⟨octave, 0⟩ : Driver).run before).hear body).filterMap Tone.key? ∧
      log₁.pitchTrace.toList =
        log₀.pitchTrace.toList ++ notes.flatMap (·.trace log₀.state.noteOffset) ∧
      ((∀ c ∈ before, c.startsArpeggio = false) → log₀.state.noteOffset = 0) ∧
      log₁.notes.toList <+: log.notes.toList ∧
      log₁.pitchTrace.toList <+: log.pitchTrace.toList := by
  have hopen : ∀ c ∈ before ++ .effectOff .arpeggio :: body, c.isTerminator = false :=
    List.forall_mem_append.mpr
      ⟨hbefore, List.forall_mem_cons.mpr ⟨rfl, fun c hc => (hbody c hc).1⟩⟩
  obtain ⟨p₀, p₁, p₂, hp₀, hp₁, hp₂, hlog₀, hlog₁, hkeys, hlogged⟩ := play_cut hplay hopen
  cases hp₁
  obtain ⟨notes, hnotes, htrace, -⟩ := p₀.unbent_disable.performAll hbody hp₂
  refine ⟨p₀.log, p₂.log, notes, hlog₀, hlog₁, hnotes, hkeys notes hnotes, htrace,
    fun hnone => ?_, hlogged⟩
  have hstart : (Player.new scale octave).channel.Unbent 0 := ⟨rfl, rfl⟩
  obtain ⟨-, -, -, hunbent⟩ := hstart.performAll (fun c hc => ⟨hbefore c hc, hnone c hc⟩) hp₀
  exact hunbent.level

/-- An arpeggio that adds up is switched off after two notes, and once more between the notes that
follow. -/
theorem play_arpeggio_off_sum :
    let m : Macro := ⟨1, .start ⟨[.int 0, .int 4], [.int 3]⟩, 0, .ofList [("cumulative", .int 1)]⟩
    let bank := MacroBank.new.set .arpeggio ⟨.arpeggio, ⟨[(1, m)]⟩, 2, false⟩
    let before : List Command := [.effectOn .arpeggio 0x81, .note 2 2, .noteShort 4]
    let body : List Command := [.noteUp 0, .effectOff .arpeggio, .rest 1, .volume 9, .note 7 4]
    ∃ (log : PlayLog) (notes : List PlayedNote),
      play bank 2 4 (before ++ .effectOff .arpeggio :: (body ++ [.effectOn .arpeggio 1, .stop])) =
        .ok log ∧
      notes.map (fun n => (n.pitch.toNat, n.octave.toNat)) = [(0, 5), (7, 5)] ∧
      [50, 56] ++ notes.flatMap (·.trace 4) <+: log.pitchTrace.toList := by
  intro m bank before body
  have hruns : (play bank 2 4 (before ++ .effectOff .arpeggio ::
      (body ++ [.effectOn .arpeggio 1, .stop]))).toOption.isSome = true := by
    decide +kernel
  have hstart : (play bank 2 4 before).toOption.map
      (fun log => (log.pitchTrace.toList, log.state.noteOffset)) = some ([50, 56], 4) := by
    decide +kernel
  cases hplay : play bank 2 4 (before ++ .effectOff .arpeggio ::
      (body ++ [.effectOn .arpeggio 1, .stop])) with
  | error e =>
    rw [hplay] at hruns
    cases hruns
  | ok log =>
    obtain ⟨log₀, log₁, notes, hlog₀, -, -, hkeys, htrace, -, -, hlog⟩ :=
      play_arpeggio_off hplay (by decide) (by decide)
    rw [hlog₀] at hstart
    obtain ⟨hpitch, hoffset⟩ := Prod.mk.inj (Option.some.inj hstart)
    rw [htrace, hpitch, hoffset] at hlog
    exact ⟨log, notes, rfl, hkeys.trans (by decide), hlog⟩

/-- The pitches as written do not come back: an arpeggio of a major chord is switched off at its
fifth, and the next note sounds a fifth higher. -/
theorem not_arpeggio_off_restores :
    ¬ ∀ (bank : MacroBank) (scale : Int) (octave : UInt8) (before body : List Command)
      (log : PlayLog), play bank scale octave (before ++ .effectOff .arpeggio :: body) = .ok log →
      (∀ c ∈ before, c.isTerminator = false) →
      (∀ c ∈ body, c.isTerminator = false ∧ c.startsArpeggio = false) →
        ∃ log₀ notes, play bank scale octave before = .ok log₀ ∧
          log.notes.toList = log₀.notes.toList ++ notes ∧
          log.pitchTrace.toList = log₀.pitchTrace.toList ++ notes.flatMap (·.trace 0) := by
  intro h
  let bank := MacroBank.new.set .arpeggio
    ⟨.arpeggio, ⟨[(0, .new 0 ⟨[.int 0, .int 4, .int 7], []⟩)]⟩, 1, false⟩
  let before : List Command := [.effectOn .arpeggio 0, .note 0 3]
  let body : List Command := [.note 2 2]
  have hbefore : (play bank 1 4 before).toOption.map
      (fun log => (log.notes.toList, log.pitchTrace.toList)) =
        some ([⟨0, 0, 4, 3⟩], [48, 52, 55]) := by
    decide +kernel
  have hall : (play bank 1 4 (before ++ .effectOff .arpeggio :: body)).toOption.map
      (fun log => (log.notes.toList, log.pitchTrace.toList)) =
        some ([⟨0, 0, 4, 3⟩, ⟨3, 2, 4, 2⟩], [48, 52, 55, 57, 57]) := by
    decide +kernel
  cases hplay : play bank 1 4 (before ++ .effectOff .arpeggio :: body) with
  | error e =>
    rw [hplay] at hall
    cases hall
  | ok log =>
    obtain ⟨log₀, notes, hlog₀, hnotes, htrace⟩ :=
      h bank 1 4 before body log hplay (by decide) (by decide)
    rw [hplay] at hall
    rw [hlog₀] at hbefore
    obtain ⟨hnotes', htrace'⟩ := Prod.mk.inj (Option.some.inj hall)
    obtain ⟨hnotes₀, htrace₀⟩ := Prod.mk.inj (Option.some.inj hbefore)
    rw [hnotes', hnotes₀] at hnotes
    -- the second note is the only one after the arpeggio
    obtain rfl : [⟨3, 2, 4, 2⟩] = notes := (List.cons.inj hnotes).2
    rw [htrace', htrace₀] at htrace
    exact absurd htrace (by decide)

end Chiptune
