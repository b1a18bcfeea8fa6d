import Chiptune.Proofs.Timekeeping
import Chiptune.Song

/-!
# The channels of a song stay together

Every channel of a song keeps the time of its ticks.  So channels with the same tempo that have the
same number of ticks also have the same number of frames, whatever was played on them.  Whether
they have the same number of ticks is what the end of a song reports.

## Main definitions

* `Move` — an event, or the writing of the sound that is waiting.
* `Channel.OnTime` — a channel whose units are those of its ticks.
* `Session.Grows` — more warnings were given, and something holds unless they report a loss.
* `Encoding.KeepsOnTime` — an operation that keeps channels on time, unless it reports a loss.
* `Song.moves` — moves on the channels of a song.

## Main results

* `Moved.keepsTime` — every move keeps time.
* `applyMoves_keepsOnTime` — a run at one tempo keeps a channel on time.
* `elapsed_eq_ticks` — no time is lost or invented, in a step, in a run and in a song.
-/

namespace Chiptune

/-! ### Moves -/

/-- What is done to a channel before its end. -/
inductive Move where
  /-- An event is entered. -/
  | event (e : Event)
  /-- The sound that is waiting is written. -/
  | flush
  deriving DecidableEq, Repr

/-- What a move does. -/
def Move.apply : Move → Encoding Unit
  | event e => e.apply
  | flush => Encoding.flush

/-- Moves one after the other. -/
def applyMoves (ms : List Move) : Encoding Unit := ms.forM Move.apply

/-- The warnings given so far. -/
def Session.warnings (s : Session) : List Warning := s.journal.warnings.toList

/-- What a move did to the channel `ch`, with the warnings it gave. -/
inductive Moved (ch : Channel) : Move → List Warning → Channel → Prop
  /-- The event was accepted. -/
  | event {e : Event} {ws : List Warning} {ch' : Channel} (h : Accepted ch e ws ch') :
      Moved ch (.event e) ws ch'
  /-- The sound that was waiting was written. -/
  | flush {ws : List Warning} {ch' : Channel} (h : Flushed ch ws ch') : Moved ch .flush ws ch'

/-- A move that succeeds gives warnings, and none is forgotten. -/
theorem Move.apply_cases {m : Move} {d d' : Desk} (h : m.apply d = .ok () d') :
    ∃ ws, d'.session.warnings = d.session.warnings ++ ws ∧ Moved d.channel m ws d'.channel := by
  cases m with
  | event e =>
    obtain ⟨ws, hacc, hws⟩ := Event.accepted_of_ok h
    exact ⟨ws, hws, .event hacc⟩
  | flush =>
    rcases Encoding.flush_cases d with ⟨ws, ch, hf, hr⟩ | ⟨p, err, -, hr⟩
    · cases hr.symm.trans h
      exact ⟨ws, Session.warnings_report _ _, .flush hf⟩
    · cases hr.symm.trans h

/-- Whether a move sets the tempo. -/
def Move.setsTempo : Move → Bool
  | event (.tempo _) => true
  | _ => false

theorem Reading.tempo_next (r : Reading) {e : Event} (he : ∀ n, e ≠ .tempo n) :
    (r.next e).tempo = r.tempo := by
  cases e with
  | tempo n => exact absurd rfl (he n)
  | note | rest | wait => simp only [next, enter]; split <;> rfl
  | cutoff => simp only [next]; split <;> rfl
  | effect => simp only [next]; split <;> rfl
  | _ => rfl

namespace Accepted

variable {ch ch' : Channel} {e : Event} {ws : List Warning}

/-- Only its own event changes the tempo. -/
theorem tempo_eq (ho : ch.Orderly) (h : Accepted ch e ws ch') (he : ∀ n, e ≠ .tempo n) :
    ch'.tempo = ch.tempo := by
  -- the channel has read what the score says, and there only this event changes the tempo
  obtain ⟨ts, -, hnext⟩ := h.follows ho
  have hread := (hnext (ch.tuplet.map fun _ => []) (by simp)).1
  have htempo : ch'.tempo = ((ch.reading _).next e).tempo := congrArg (·.tempo) hread
  rw [htempo, Reading.tempo_next _ he]
  rfl

/-- Time never stops. -/
theorem tempo_pos (ho : ch.Orderly) (h : Accepted ch e ws ch') (hpos : 0 < ch.tempo) :
    0 < ch'.tempo := by
  by_cases he : ∀ n, e ≠ .tempo n
  · rw [h.tempo_eq ho he]
    exact hpos
  · simp only [ne_eq, Classical.not_forall, Decidable.not_not] at he
    obtain ⟨n, rfl⟩ := he
    cases h with
    | tempoIgnored hv => exact hpos
    | tempo hv hn hf => exact Nat.pos_of_ne_zero hn
    | entry he => cases he
    | queue he => cases he
    | octave he => cases he

theorem clock_eq (ho : ch.Orderly) (h : Accepted ch e ws ch') : ch'.clock = ch.clock := by
  obtain ⟨ts, hrender, -⟩ := h.follows ho
  obtain ⟨-, cs, hext, -⟩ := hrender ho
  exact hext.clock

end Accepted

theorem unitsPerTick?_isSome {tempo : Nat} (h : 0 < tempo) (clock : FrameClock) :
    ∃ perTick, unitsPerTick? tempo clock = some perTick :=
  ⟨_, if_neg (Nat.ne_of_gt h)⟩

/-- A channel between two moves: time passes on it, and its tuplet is in order. -/
structure Channel.Running (ch : Channel) (name : String) (clock : FrameClock) : Prop where
  /-- The open tuplet is in order. -/
  orderly : ch.Orderly
  name : ch.name = name
  clock : ch.clock = clock
  /-- Time passes. -/
  tempo : 0 < ch.tempo

/-- **Every move keeps time**, at the tempo that was in force before it. -/
theorem Moved.keepsTime {ch ch' : Channel} {m : Move} {ws : List Warning} (h : Moved ch m ws ch')
    {name : String} {clock : FrameClock} (hrun : ch.Running name clock) {perTick : Int}
    (hper : unitsPerTick? ch.tempo clock = some perTick) :
    ch.KeepsTime perTick ws ch' ∧ ch'.Running name clock ∧
      (m.setsTempo = false → ch'.tempo = ch.tempo) := by
  have ho := hrun.orderly
  rw [← hrun.clock] at hper
  cases h with
  | event hacc =>
    have htime := hacc.keepsTime ho hper
    refine ⟨htime, ⟨(hacc.follows ho).orderly ho, htime.name.trans hrun.name,
      (hacc.clock_eq ho).trans hrun.clock, hacc.tempo_pos ho hrun.tempo⟩, fun hset => ?_⟩
    refine hacc.tempo_eq ho ?_
    rintro n rfl
    cases hset
  | flush hf =>
    have htime := hf.keepsTime hper
    have htempo : ch'.tempo = ch.tempo := congrArg (·.tempo) (hf.reading none)
    have hclock : ch'.clock = ch.clock := congrArg (·.clock) (hf.reading none)
    exact ⟨htime, ⟨(hf.renders ho).1, htime.name.trans hrun.name, hclock.trans hrun.clock,
      htempo ▸ hrun.tempo⟩, fun _ => htempo⟩

/-! ### Runs -/

theorem Channel.running_new (name : String) (voice : Voice) (clock : FrameClock) {tempo : Nat}
    (htempo : 0 < tempo) : (new name voice clock tempo).Running name clock where
  orderly := .of_none rfl
  name := rfl
  clock := rfl
  tempo := htempo

/-- Time passes on a channel through a run. -/
theorem applyMoves_running {name : String} {clock : FrameClock} : ∀ {ms : List Move} {d d' : Desk},
    d.channel.Running name clock → applyMoves ms d = .ok () d' →
      d'.channel.Running name clock := by
  intro ms
  induction ms with
  | nil => intro d d' hrun h; cases h; exact hrun
  | cons m ms ih =>
    intro d d' hrun h
    obtain ⟨d₁, hm, hms⟩ := forM_cons_eq_ok h
    obtain ⟨perTick, hper⟩ := unitsPerTick?_isSome hrun.tempo clock
    obtain ⟨ws, -, hmoved⟩ := Move.apply_cases hm
    exact ih (hmoved.keepsTime hrun hper).2.1 hms

/-- Whether a warning reports that units were lost. -/
def Warning.isLoss : Warning → Bool
  | noteTooLong _ _ _ => true
  | _ => false

/-- Whether a warning reports that a channel is too short. -/
def Warning.isMismatch : Warning → Bool
  | lengthMismatch _ _ _ => true
  | _ => false

theorem Warning.losses_eq_zero {name : String} {ws : List Warning}
    (h : ∀ w ∈ ws, w.isLoss = false) : losses name ws = 0 := by
  unfold losses
  refine List.sum_eq_zero fun n hn => ?_
  obtain ⟨w, hw, rfl⟩ := List.mem_map.mp hn
  have hnone := h w hw
  cases w with
  | noteTooLong => cases hnone
  | _ => rfl

/-- A channel at a tempo at which ticks take `perTick` units, whose units are those of its ticks. -/
structure Channel.OnTime (ch : Channel) (clock : FrameClock) (tempo : Nat) (perTick : Int) :
    Prop where
  /-- The open tuplet is in order. -/
  orderly : ch.Orderly
  clock : ch.clock = clock
  tempo : ch.tempo = tempo
  /-- The units of the ticks. -/
  elapsed : ch.elapsed = perTick * ch.ticks

/-- More warnings were given on the way from `s` to `s'`, and unless they report a loss, `P` before
leads to `Q` after. -/
def Session.Grows (s s' : Session) (P Q : Prop) : Prop :=
  ∃ ws, s'.warnings = s.warnings ++ ws ∧ ((∀ w ∈ ws, w.isLoss = false) → P → Q)

namespace Session.Grows

variable {s s' s'' : Session} {P P' Q Q' R : Prop}

theorem refl (s : Session) (P : Prop) : s.Grows s P P :=
  ⟨[], by simp, fun _ h => h⟩

theorem trans (h : s.Grows s' P Q) (h' : s'.Grows s'' Q R) : s.Grows s'' P R := by
  obtain ⟨ws, hwarn, hkeep⟩ := h
  obtain ⟨ws', hwarn', hkeep'⟩ := h'
  refine ⟨ws ++ ws', by rw [hwarn', hwarn, List.append_assoc], fun hws hP => ?_⟩
  rw [List.forall_mem_append] at hws
  exact hkeep' hws.2 (hkeep hws.1 hP)

theorem map (h : s.Grows s' P Q) (f : (P → Q) → P' → Q') : s.Grows s' P' Q' := by
  obtain ⟨ws, hwarn, hkeep⟩ := h
  exact ⟨ws, hwarn, fun hws => f (hkeep hws)⟩

/-- What one step does not concern stays as it is while the other is made. -/
theorem both (h : s.Grows s' P Q) (h' : s'.Grows s'' P' Q') : s.Grows s'' (P ∧ P') (Q ∧ Q') := by
  have hfirst : s.Grows s' (P ∧ P') (Q ∧ P') := h.map fun hkeep hP => ⟨hkeep hP.1, hP.2⟩
  have hsecond : s'.Grows s'' (Q ∧ P') (Q ∧ Q') := h'.map fun hkeep hP => ⟨hP.1, hkeep hP.2⟩
  exact hfirst.trans hsecond

end Session.Grows

/-- An operation keeps channels on time, unless it reports a loss. -/
def Encoding.KeepsOnTime (act : Encoding Unit) (clock : FrameClock) (tempo : Nat) (perTick : Int) :
    Prop :=
  ∀ d d' : Desk, act d = .ok () d' → d.session.Grows d'.session
    (d.channel.OnTime clock tempo perTick) (d'.channel.OnTime clock tempo perTick)

section OnTime

variable {clock : FrameClock} {tempo : Nat} {perTick : Int}

theorem Channel.onTime_new (name : String) (voice : Voice) (clock : FrameClock) (tempo : Nat)
    (perTick : Int) : (new name voice clock tempo).OnTime clock tempo perTick where
  orderly := .of_none rfl
  clock := rfl
  tempo := rfl
  elapsed := by simp [new]

/-- If nothing is reported as lost, then a channel stays on time. -/
theorem Channel.OnTime.keepsTime {ch ch' : Channel} {ws : List Warning}
    (h : ch.OnTime clock tempo perTick) (htime : ch.KeepsTime perTick ws ch')
    (hws : ∀ w ∈ ws, w.isLoss = false) : ch'.elapsed = perTick * ch'.ticks := by
  have hstep := htime.elapsed
  rw [Warning.losses_eq_zero hws, h.elapsed] at hstep
  grind

/-- A move that does not set the tempo keeps channels on time. -/
theorem Move.keepsOnTime (htempo : 0 < tempo) (hper : unitsPerTick? tempo clock = some perTick)
    {m : Move} (hm : m.setsTempo = false) : m.apply.KeepsOnTime clock tempo perTick := by
  intro d d' h
  obtain ⟨ws, hwarn, hmoved⟩ := m.apply_cases h
  refine ⟨ws, hwarn, fun hws hon => ?_⟩
  have hrun : d.channel.Running d.channel.name clock :=
    ⟨hon.orderly, rfl, hon.clock, hon.tempo ▸ htempo⟩
  obtain ⟨htime, hrun', hsame⟩ := hmoved.keepsTime hrun (hon.tempo ▸ hper)
  exact ⟨hrun'.orderly, hrun'.clock, (hsame hm).trans hon.tempo, hon.keepsTime htime hws⟩

/-- Ending a channel keeps it on time. -/
theorem Encoding.finish_keepsOnTime (hper : unitsPerTick? tempo clock = some perTick) :
    finish.KeepsOnTime clock tempo perTick := by
  intro d d' h
  cases hopen : d.channel.finished with
  | true =>
    simp only [finish, channel_bind, hopen, if_true, pure_apply] at h
    cases h
    exact .refl _ _
  | false =>
    obtain ⟨ws, ch, last, hf, -, ht, -, rfl⟩ := finish_cases hopen h
    refine ⟨ws, Session.warnings_report _ _, fun hws hon => ?_⟩
    have htempo : ch.tempo = d.channel.tempo := congrArg (·.tempo) (hf.reading none)
    have hclock : ch.clock = d.channel.clock := congrArg (·.clock) (hf.reading none)
    have htime := hf.keepsTime (by rw [hon.tempo, hon.clock]; exact hper)
    exact ⟨.of_none ht, hclock.trans hon.clock, htempo.trans hon.tempo,
      hon.keepsTime (htime.congr rfl rfl rfl) hws⟩

/-- **A run at one tempo keeps a channel on time.** -/
theorem applyMoves_keepsOnTime (htempo : 0 < tempo)
    (hper : unitsPerTick? tempo clock = some perTick) {ms : List Move}
    (hms : ∀ m ∈ ms, m.setsTempo = false) : (applyMoves ms).KeepsOnTime clock tempo perTick := by
  induction ms with
  | nil =>
    intro d d' h
    cases h
    exact .refl _ _
  | cons m ms ih =>
    intro d d' h
    obtain ⟨d₁, hm, hrest⟩ := forM_cons_eq_ok h
    rw [List.forall_mem_cons] at hms
    exact (Move.keepsOnTime htempo hper hms.1 d d₁ hm).trans (ih hms.2 d₁ d' hrest)

/-! ### Songs -/

namespace Song

/-- All voices of a song are on time. -/
def OnTime (song : Song) (clock : FrameClock) (tempo : Nat) (perTick : Int) : Prop :=
  ∀ ch ∈ song.channels, ch.OnTime clock tempo perTick

/-- Channels that were on time are so still, unless a loss was reported. -/
def Grown (clock : FrameClock) (tempo : Nat) (perTick : Int) (chs : List Channel)
    (session : Session) (chs' : List Channel) (session' : Session) : Prop :=
  session.Grows session' (∀ ch ∈ chs, ch.OnTime clock tempo perTick)
    (∀ ch ∈ chs', ch.OnTime clock tempo perTick)

/-- An operation on one of some channels. -/
theorem onFirst?_grown {act : Encoding Unit} (hact : act.KeepsOnTime clock tempo perTick)
    {name : String} {session session' : Session} : ∀ {chs chs' : List Channel},
    onFirst? name act session chs = some (.ok () (chs', session')) →
      Grown clock tempo perTick chs session chs' session' := by
  intro chs
  induction chs with
  | nil => intro chs' h; cases h
  | cons ch chs ih =>
    intro chs' h
    unfold onFirst? at h
    split at h
    · split at h
      · next d hd =>
        cases h
        refine (hact _ d hd).map fun hon hall => ?_
        rw [List.forall_mem_cons] at hall ⊢
        exact ⟨hon hall.1, hall.2⟩
      · cases h
    · split at h
      · next rest session₁ hrest =>
        cases h
        refine (ih hrest).map fun hon hall => ?_
        rw [List.forall_mem_cons] at hall ⊢
        exact ⟨hall.1, hon hall.2⟩
      · cases h
      · cases h

/-- An operation on each of some channels. -/
theorem onEach_grown {act : Encoding Unit} (hact : act.KeepsOnTime clock tempo perTick) :
    ∀ {chs chs' : List Channel} {session session' : Session},
    onEach act session chs = .ok () (chs', session') →
      Grown clock tempo perTick chs session chs' session' := by
  intro chs
  induction chs with
  | nil =>
    intro chs' session session' h
    cases h
    exact .refl _ _
  | cons ch chs ih =>
    intro chs' session session' h
    unfold onEach at h
    split at h
    · cases h
    · next d hd =>
      split at h
      · next rest session₁ hrest =>
        cases h
        refine ((hact _ d hd).both (ih hrest)).map fun hon hall => ?_
        rw [List.forall_mem_cons] at hall ⊢
        exact hon hall
      · cases h

/-- An operation on the pattern channel. -/
theorem onPattern_grown {act : Encoding Unit} (hact : act.KeepsOnTime clock tempo perTick)
    {song song' : Song} {session session' : Session}
    (h : onPattern act (song, session) = .ok () (song', session')) :
    Grown clock tempo perTick song.channels session song'.channels session' := by
  simp only [onPattern] at h
  split at h
  · next d hd =>
    cases h
    exact (hact _ d hd).map fun _ hall => hall
  · cases h

/-- An operation on the channel of a name. -/
theorem onChannel?_grown {act : Encoding Unit} (hact : act.KeepsOnTime clock tempo perTick)
    {name : String} {song song' : Song} {session session' : Session}
    (h : song.onChannel? name act session = some (.ok () (song', session'))) :
    Grown clock tempo perTick song.channels session song'.channels session' := by
  unfold onChannel? at h
  split at h
  · exact onPattern_grown hact (Option.some.inj h)
  · split at h
    · next chs session₁ hfirst =>
      cases h
      exact onFirst?_grown hact hfirst
    · cases h
    · cases h

/-- What some moves on the channels of a song make of it, if all of them succeed. -/
def moves : List (String × Move) → Song × Session → Option (Song × Session)
  | [], s => some s
  | (name, m) :: steps, (song, session) =>
    match song.onChannel? name m.apply session with
    | some (.ok _ s) => moves steps s
    | _ => none

/-- Moves at one tempo keep a song on time. -/
theorem moves_grown (htempo : 0 < tempo) (hper : unitsPerTick? tempo clock = some perTick) :
    ∀ {steps : List (String × Move)} {song song' : Song} {session session' : Session},
    (∀ step ∈ steps, step.2.setsTempo = false) →
    moves steps (song, session) = some (song', session') →
      Grown clock tempo perTick song.channels session song'.channels session' := by
  intro steps
  induction steps with
  | nil =>
    intro song song' session session' _ h
    cases h
    exact .refl _ _
  | cons step steps ih =>
    intro song song' session session' hsteps h
    obtain ⟨name, m⟩ := step
    unfold moves at h
    split at h
    · next s hmove =>
      obtain ⟨song₁, session₁⟩ := s
      rw [List.forall_mem_cons] at hsteps
      have hm := Move.keepsOnTime htempo hper hsteps.1
      exact (onChannel?_grown hm hmove).trans (ih hsteps.2 h)
    · cases h

/-! ### The end of a song -/

theorem onSession_warn {w : Warning} {song : Song} {session : Session} {s' : Song × Session}
    (h : onSession (Session.warn w) (song, session) = .ok () s') :
    s' = (song, session.report [w]) := by
  cases hstrict : session.journal.strict with
  | true => simp [onSession, Session.warn, Journal.warn, hstrict] at h
  | false =>
    simp only [onSession, Session.warn, Journal.warn, hstrict, Bool.false_eq_true, if_false] at h
    cases h
    simp [Session.report, hstrict]

/-- Each of some channels that has not the expected ticks is reported. -/
private theorem forM_report {expected : Nat} : ∀ (chs : List Channel) {song song' : Song}
    {session session' : Session},
    (chs.forM fun ch => if ch.ticks = expected then pure ()
      else onSession (Session.warn (.lengthMismatch ch.name ch.ticks expected)) : Composing Unit)
        (song, session) = .ok () (song', session') →
      song' = song ∧ ∃ ws, session'.warnings = session.warnings ++ ws ∧
        ∀ ch ∈ chs, ch.ticks ≠ expected → .lengthMismatch ch.name ch.ticks expected ∈ ws := by
  intro chs
  induction chs with
  | nil => intro song song' session session' h; cases h; exact ⟨rfl, [], by simp, by simp⟩
  | cons ch chs ih =>
    intro song song' session session' h
    obtain ⟨⟨song₁, session₁⟩, hch, hchs⟩ := forM_cons_eq_ok h
    obtain ⟨hsong, ws, hwarn, hmem⟩ := ih hchs
    split at hch
    · next heq =>
      cases hch
      refine ⟨hsong, ws, hwarn, fun c hc hne => ?_⟩
      rcases List.mem_cons.mp hc with rfl | hc
      · exact absurd heq hne
      · exact hmem c hc hne
    · cases onSession_warn hch
      refine ⟨hsong, _ :: ws, by rw [hwarn, Session.warnings, Session.warnings_report]; simp; rfl,
        fun c hc hne => ?_⟩
      rcases List.mem_cons.mp hc with rfl | hc
      · exact List.mem_cons_self
      · exact List.mem_cons_of_mem _ (hmem c hc hne)

/-- **The end of a song reports every channel with notes that is shorter than the longest.** -/
theorem reportLengths_reports {song song' : Song} {session session' : Session}
    (h : reportLengths (song, session) = .ok () (song', session')) :
    song' = song ∧ ∃ ws, session'.warnings = session.warnings ++ ws ∧
      ∀ ch ∈ song.channels, ch.hasNotes = true → ch.ticks ≠ song.longest →
        .lengthMismatch ch.name ch.ticks song.longest ∈ ws := by
  obtain ⟨hsong, ws, hwarn, hmem⟩ := forM_report (song.channels.filter (·.hasNotes)) h
  refine ⟨hsong, ws, hwarn, fun ch hch hnotes hne => ?_⟩
  exact hmem ch (List.mem_filter.mpr ⟨hch, hnotes⟩) hne

/-- A song ends: its channels stay on time, and those that are too short are reported. -/
theorem finish_grown (hper : unitsPerTick? tempo clock = some perTick) {song song' : Song}
    {session session' : Session} (h : finish (song, session) = .ok () (song', session')) :
    ∃ ws, session'.warnings = session.warnings ++ ws ∧
      ((∀ w ∈ ws, w.isLoss = false) → song.OnTime clock tempo perTick →
        song'.OnTime clock tempo perTick) ∧
      ∀ ch ∈ song'.channels, ch.hasNotes = true → ch.ticks ≠ song'.longest →
        .lengthMismatch ch.name ch.ticks song'.longest ∈ ws := by
  have hact := Encoding.finish_keepsOnTime hper
  obtain ⟨⟨⟩, ⟨song₁, session₁⟩, hvoices, h⟩ := bind_eq_ok h
  obtain ⟨⟨⟩, ⟨song₂, session₂⟩, hpattern, hreport⟩ := bind_eq_ok h
  obtain ⟨rfl, ws', hwarn', hmem⟩ := reportLengths_reports hreport
  have hgrown : Grown clock tempo perTick song.channels session song₁.channels session₁ := by
    simp only [onVoices] at hvoices
    split at hvoices
    · next chs session₃ heach =>
      cases hvoices
      exact onEach_grown hact heach
    · cases hvoices
  obtain ⟨ws, hwarn, hon⟩ := hgrown.trans (onPattern_grown hact hpattern)
  refine ⟨ws ++ ws', by rw [hwarn', hwarn, List.append_assoc], fun hws hstart => ?_, ?_⟩
  · exact hon (List.forall_mem_append.mp hws).1 hstart
  · intro ch hch hnotes hne
    exact List.mem_append_right _ (hmem ch hch hnotes hne)

/-- In a song that has ended on time and without a report, the channels with notes have the same
number of frames. -/
theorem frames_eq {song : Song} {ws : List Warning} (hon : song.OnTime clock tempo perTick)
    (hreport : ∀ ch ∈ song.channels, ch.hasNotes = true → ch.ticks ≠ song.longest →
      .lengthMismatch ch.name ch.ticks song.longest ∈ ws)
    (hws : ∀ w ∈ ws, w.isMismatch = false) {ch : Channel} (hch : ch ∈ song.channels)
    (hnotes : ch.hasNotes = true) :
    ch.frames = (perTick * song.longest).tdiv clock.scale := by
  -- a channel with another number of ticks would have been reported
  have hticks : ch.ticks = song.longest := by
    by_contra hne
    have hquiet := hws _ (hreport ch hch hnotes hne)
    cases hquiet
  rw [Channel.frames, Channel.scale, (hon ch hch).elapsed, (hon ch hch).clock, hticks]

/-- Whether moves on a song succeed and the song then ends without any warnings. -/
def ends (steps : List (String × Move)) (start : Song × Session) : Bool :=
  match moves steps start with
  | some s =>
    match finish s with
    | .ok _ s' => s'.2.warnings.isEmpty
    | .error _ _ => false
  | none => false

theorem exists_of_ends {steps : List (String × Move)} {start : Song × Session}
    {P : Song → Session → Prop} (h : ends steps start = true)
    (hP : ∀ s song' session', moves steps start = some s → finish s = .ok () (song', session') →
      session'.warnings = [] → P song' session') :
    ∃ s song' session', moves steps start = some s ∧ finish s = .ok () (song', session') ∧
      session'.warnings = [] ∧ P song' session' := by
  unfold ends at h
  split at h
  · next s hmoves =>
    split at h
    · next s' hend =>
      obtain ⟨song', session'⟩ := s'
      have hwarn : session'.warnings = [] := List.isEmpty_iff.mp h
      exact ⟨s, song', session', hmoves, hend, hwarn, hP s song' session' hmoves hend hwarn⟩
    · cases h
  · cases h

end Song

end OnTime

/-- **No time is lost or invented.**  In every step of a run the units that a channel counts are
those of the ticks that it counts, at the tempo in force before the step, less those that warnings
report as lost.  So in a run at one tempo in which nothing is reported as lost, the units are always
those of the ticks.  If this holds for a song, and its end reports no channel as too short, then all
voices with notes have the same number of frames. -/
theorem elapsed_eq_ticks (clock : FrameClock) {tempo : Nat} (htempo : 1 ≤ tempo)
    (session : Session) :
    (∀ (name : String) (voice : Voice) (ms : List Move) (m : Move) (d d' : Desk),
      applyMoves ms ⟨.new name voice clock tempo, session⟩ = .ok () d → m.apply d = .ok () d' →
      ∃ perTick ws, unitsPerTick? d.channel.tempo clock = some perTick ∧
        d'.session.warnings = d.session.warnings ++ ws ∧
        d'.channel.elapsed - d.channel.elapsed =
          perTick * ((d'.channel.ticks : Int) - d.channel.ticks) - Warning.losses name ws) ∧
    (∀ (name : String) (voice : Voice) (ms : List Move) (d : Desk) (ws : List Warning),
      applyMoves ms ⟨.new name voice clock tempo, session⟩ = .ok () d →
      (∀ m ∈ ms, m.setsTempo = false) →
      d.session.warnings = session.warnings ++ ws → (∀ w ∈ ws, w.isLoss = false) →
      ∃ perTick, unitsPerTick? tempo clock = some perTick ∧
        d.channel.elapsed = perTick * d.channel.ticks) ∧
    (∀ (platform : Platform) (steps : List (String × Move)) (s : Song × Session) (song' : Song)
        (session' : Session) (ws : List Warning),
      Song.moves steps (.new platform clock tempo, session) = some s →
      Song.finish s = .ok () (song', session') →
      (∀ step ∈ steps, step.2.setsTempo = false) →
      session'.warnings = session.warnings ++ ws →
      (∀ w ∈ ws, w.isLoss = false ∧ w.isMismatch = false) →
      ∀ ch ∈ song'.channels, ∀ ch' ∈ song'.channels, ch.hasNotes = true → ch'.hasNotes = true →
        ch.frames = ch'.frames) := by
  obtain ⟨perTick, hper⟩ := unitsPerTick?_isSome htempo clock
  refine ⟨?_, ?_, ?_⟩
  · -- the tempo may have changed in the run before the step, but time passes still
    intro name voice ms m d d' hrun hm
    have hstart := applyMoves_running (Channel.running_new name voice clock htempo) hrun
    obtain ⟨perTick', hper'⟩ := unitsPerTick?_isSome hstart.tempo clock
    obtain ⟨ws, hwarn, hmoved⟩ := m.apply_cases hm
    have htime := (hmoved.keepsTime hstart hper').1.elapsed
    rw [hstart.name] at htime
    exact ⟨perTick', ws, hper', hwarn, htime⟩
  · -- the warnings of the run are those that it gave, so none of them is a loss
    intro name voice ms d ws hrun hms hwarn hws
    obtain ⟨ws', hwarn', hon⟩ := applyMoves_keepsOnTime htempo hper hms _ _ hrun
    obtain rfl : ws = ws' := List.append_cancel_left (hwarn.symm.trans hwarn')
    exact ⟨perTick, hper, (hon hws (Channel.onTime_new name voice clock tempo perTick)).elapsed⟩
  · rintro platform steps ⟨song, session₁⟩ song' session' ws hmoves hend hsteps hwarn hws
    obtain ⟨ws₁, hwarn₁, hon₁⟩ := Song.moves_grown htempo hper hsteps hmoves
    obtain ⟨ws₂, hwarn₂, hon₂, hreport⟩ := Song.finish_grown hper hend
    -- those of the moves come before those of the end
    have hsplit : ws = ws₁ ++ ws₂ := by
      rw [hwarn₂, hwarn₁, List.append_assoc] at hwarn
      exact (List.append_cancel_left hwarn).symm
    subst hsplit
    have hnew : ∀ ch ∈ (Song.new platform clock tempo).channels,
        ch.OnTime clock tempo perTick := by
      intro ch hch
      obtain ⟨v, -, rfl⟩ := List.mem_map.mp hch
      exact Channel.onTime_new _ _ _ _ _
    obtain ⟨hws₁, hws₂⟩ := List.forall_mem_append.mp hws
    have hon := hon₂ (fun w hw => (hws₂ w hw).1) (hon₁ (fun w hw => (hws₁ w hw).1) hnew)
    have hframes : ∀ ch ∈ song'.channels, ch.hasNotes = true →
        ch.frames = (perTick * song'.longest).tdiv clock.scale := fun ch hch hnotes =>
      Song.frames_eq hon hreport (fun w hw => (hws₂ w hw).2) hch hnotes
    intro ch hch ch' hch' hnotes hnotes'
    rw [hframes ch hch hnotes, hframes ch' hch' hnotes']

/-- Two voices, one with silence after its notes and a tie, the other with a tuplet whose length
cannot be shared evenly. -/
theorem elapsed_eq_ticks_voices :
    ∃ s song' session',
      Song.moves [("A", .event (.note 0 24)), ("B", .event (.octave 3)),
          ("A", .event (.cutoff ⟨.frames, false, 2⟩)), ("B", .event .tupletStart),
          ("B", .event (.note 4 0)), ("B", .event (.rest 0)), ("B", .event (.note 7 0)),
          ("B", .event (.tupletEnd 25)), ("A", .event (.note 5 9)), ("A", .event (.tie 4)),
          ("A", .flush), ("B", .event (.note 1 12))]
        (.new .c64 ⟨50, false⟩ 123, .new .default) = some s ∧
      Song.finish s = .ok () (song', session') ∧ session'.warnings = [] ∧
      ∀ ch ∈ song'.channels, ∀ ch' ∈ song'.channels, ch.hasNotes = true → ch'.hasNotes = true →
        ch.frames = ch'.frames := by
  refine Song.exists_of_ends (by decide +kernel) fun s song' session' hmoves hend hwarn => ?_
  refine (elapsed_eq_ticks _ (by decide) _).2.2 _ _ s song' session' [] hmoves hend (by decide)
    (by rw [hwarn]; rfl) (by simp)

end Chiptune
