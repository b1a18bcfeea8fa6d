import Chiptune.Channel.Event
import Chiptune.Proofs.NoteLength
import Chiptune.Proofs.Writing

/-!
# What an event can do

An event is accepted or refused, and in both cases there are few things that can have happened to
the channel.  They are listed here once, so that what every event preserves can be shown case by
case without looking at operations again.

Nearly every event first writes the sound that is waiting.  That fails if the sound has no length,
or if a warning about it is not tolerated; nothing is written then.

## Main definitions

* `Flushed` — the sound that was waiting is written.
* `Closed` — a tuplet is written.
* `Accepted`, `Refused` — what an event did to a channel, with the warnings it gave.

## Main results

* `Encoding.flush_cases` — the sound that was waiting is written, or it is lost.
* `Encoding.finish_cases` — a channel ends with one more command.
* `Event.apply_cases` — an event is accepted or refused.
* `Event.accepted_of_ok` — an event that succeeds was accepted.
-/

namespace Chiptune

/-- The session with more warnings in its journal. -/
def Session.report (s : Session) (ws : List Warning) : Session :=
  { s with journal := { s.journal with warnings := s.journal.warnings ++ ws } }

@[simp] theorem Session.report_nil (s : Session) : s.report [] = s := by
  simp [report]

@[simp] theorem Session.warnings_report (s : Session) (ws : List Warning) :
    (s.report ws).journal.warnings.toList = s.journal.warnings.toList ++ ws := by
  simp [report]

/-- The sound that an event enters, and its ticks. -/
def Event.sound? : Event → Option (Sound × Nat)
  | note semitone ticks => some (.ofSemitone semitone, ticks)
  | rest ticks => some (.rest, ticks)
  | wait ticks => some (.wait, ticks)
  | _ => none

/-- The octave that an event selects, where the octave was `o`. -/
def Event.octave? (o : Octave) : Event → Option Int
  | octave n => some n
  | octaveUp => some (o.val + 1)
  | octaveDown => some (o.val - 1)
  | _ => none

/-! ### Success -/

/-- If two operations succeed one after the other, then so does each of them. -/
theorem bind_eq_ok {ε σ α β : Type} {x : EStateM ε σ α} {f : α → EStateM ε σ β} {b : β} {s s' : σ}
    (h : (x >>= f) s = .ok b s') : ∃ a s₁, x s = .ok a s₁ ∧ f a s₁ = .ok b s' := by
  change EStateM.bind x f s = .ok b s' at h
  unfold EStateM.bind at h
  cases hr : x s with
  | ok a s₁ => exact ⟨a, s₁, rfl, by simpa only [hr] using h⟩
  | error err s₁ => simp only [hr, reduceCtorEq] at h

/-- If operations on the members of a list succeed one after the other, then the first does, and
then the others. -/
theorem forM_cons_eq_ok {ε σ α : Type} {act : α → EStateM ε σ Unit} {x : α} {xs : List α}
    {s s' : σ} (h : (x :: xs).forM act s = .ok () s') :
    ∃ s₁, act x s = .ok () s₁ ∧ xs.forM act s₁ = .ok () s' := by
  obtain ⟨⟨⟩, s₁, hr⟩ := bind_eq_ok (show (act x >>= fun _ => xs.forM act) s = .ok () s' from h)
  exact ⟨s₁, hr⟩

/-- If operations on the members of two lists succeed one after the other, then those on the first
list do, and then those on the second. -/
theorem forM_append_eq_ok {ε σ α : Type} {act : α → EStateM ε σ Unit} :
    ∀ {xs ys : List α} {s s' : σ}, (xs ++ ys).forM act s = .ok () s' →
      ∃ s₁, xs.forM act s = .ok () s₁ ∧ ys.forM act s₁ = .ok () s' := by
  intro xs
  induction xs with
  | nil => exact fun h => ⟨_, rfl, h⟩
  | cons x xs ih =>
    intro ys s s' h
    obtain ⟨s₁, hfirst, hrest⟩ := forM_cons_eq_ok h
    obtain ⟨s₂, hxs, hys⟩ := ih hrest
    refine ⟨s₂, ?_, hys⟩
    change EStateM.bind (act x) (fun _ => xs.forM act) s = .ok () s₂
    simpa only [EStateM.bind, hfirst] using hxs

namespace Encoding

/-- Whether an operation succeeds. -/
def succeeds (act : Encoding Unit) (d : Desk) : Bool :=
  match act d with
  | .ok _ _ => true
  | .error _ _ => false

/-- An operation that succeeds leaves a state behind, and what its success implies holds of it. -/
theorem exists_of_succeeds {act : Encoding Unit} {d : Desk} {P : Desk → Prop}
    (h : act.succeeds d = true) (hP : ∀ d', act d = .ok () d' → P d') :
    ∃ d', act d = .ok () d' ∧ P d' := by
  unfold succeeds at h
  split at h
  · next d' hd => exact ⟨d', hd, hP d' hd⟩
  · cases h

end Encoding

/-! ### The sound that is waiting -/

/-- The sound that was waiting in `ch` is written, with some warnings. -/
inductive Flushed (ch : Channel) : List Warning → Channel → Prop
  /-- There was none. -/
  | idle (hp : ch.pending = none) : Flushed ch [] ch
  /-- It was a note. -/
  | note {p : PendingSound} {pitch : Fin 12} {length : NoteLength} (hp : ch.pending = some p)
      (hs : p.sound = .note pitch)
      (hlen : splitNote p.ticks ch.tempo ch.clock ch.cutoff = .ok length) :
      Flushed ch (length.warnings ch.name)
        ((ch.dequeue p).writeWithCutoff length.cutoff (·.writeNote pitch p.octave length.active))
  /-- It was a rest or a wait. -/
  | silence {p : PendingSound} {perTick : Int} (hp : ch.pending = some p)
      (hs : p.sound.isNote = false) (hper : unitsPerTick? ch.tempo ch.clock = some perTick) :
      Flushed ch [] ((ch.dequeue p).writeSilence p.sound (perTick * p.ticks))

namespace Encoding

/-- A remark is written into the journal, or stops the operation. -/
theorem remark_cases (name : String) (length : NoteLength) (d : Desk) :
    remark name length d = .ok () ⟨d.channel, d.session.report (length.warnings name)⟩ ∨
      ∃ e, remark name length d = .error e d := by
  unfold remark NoteLength.warnings
  cases length.remark with
  | none => left; simp
  | some r =>
    cases hstrict : d.session.journal.strict with
    | false =>
      left
      cases r <;>
        simp [warn, onSession, Session.warn, Journal.warn, hstrict, Session.report]
    | true =>
      right
      cases r <;> simp [warn, onSession, Session.warn, Journal.warn, hstrict]

/-- The length of a note is found and reported on, or there is none. -/
theorem noteLength_cases (ticks : Nat) (d : Desk) :
    (∃ length, splitNote ticks d.channel.tempo d.channel.clock d.channel.cutoff = .ok length ∧
      noteLength ticks d =
        .ok length ⟨d.channel, d.session.report (length.warnings d.channel.name)⟩) ∨
      ∃ e, noteLength ticks d = .error e d := by
  simp only [noteLength, channel_bind]
  cases hlen : splitNote ticks d.channel.tempo d.channel.clock d.channel.cutoff with
  | error f => cases f <;> exact Or.inr ⟨_, rfl⟩
  | ok length =>
    rcases remark_cases d.channel.name length d with h | ⟨e, h⟩
    · exact Or.inl ⟨length, rfl, by simp only [bind_apply, h, pure_apply]⟩
    · exact Or.inr ⟨e, by simp only [bind_apply, h]⟩

/-- The length of a silence is found, or there is none. -/
theorem silenceLength_cases (ticks : Nat) (d : Desk) :
    (∃ perTick, unitsPerTick? d.channel.tempo d.channel.clock = some perTick ∧
      silenceLength ticks d = .ok (perTick * ticks) d) ∨
      (unitsPerTick? d.channel.tempo d.channel.clock = none ∧
        ∃ e, silenceLength ticks d = .error e d) := by
  simp only [silenceLength, channel_bind]
  cases hper : unitsPerTick? d.channel.tempo d.channel.clock with
  | none => exact Or.inr ⟨rfl, _, rfl⟩
  | some perTick => exact Or.inl ⟨perTick, rfl, rfl⟩

/-- **The sound that is waiting is written, or it is lost.** -/
theorem flush_cases (d : Desk) :
    (∃ ws ch, Flushed d.channel ws ch ∧ flush d = .ok () ⟨ch, d.session.report ws⟩) ∨
      ∃ p e, d.channel.pending = some p ∧
        flush d = .error e ⟨d.channel.dequeue p, d.session⟩ := by
  simp only [flush, channel_bind]
  cases hp : d.channel.pending with
  | none => exact Or.inl ⟨[], d.channel, .idle hp, by simp⟩
  | some p =>
    -- the sound leaves the queue before its length is known, so an error loses it
    simp only [modifyChannel_bind, writePending]
    cases hs : p.sound with
    | note pitch =>
      rcases noteLength_cases p.ticks ⟨d.channel.dequeue p, d.session⟩ with ⟨len, hlen, h⟩ | ⟨e, h⟩
      · refine Or.inl ⟨_, _, .note hp hs hlen, ?_⟩
        simp only [bind_apply, h, modifyChannel_apply]
        rfl
      · exact Or.inr ⟨p, e, rfl, by simp only [bind_apply, h]⟩
    | rest | wait =>
      rcases silenceLength_cases p.ticks ⟨d.channel.dequeue p, d.session⟩ with
        ⟨perTick, hper, h⟩ | ⟨-, e, h⟩
      · refine Or.inl ⟨_, _, .silence hp (by rw [hs]; rfl) hper, ?_⟩
        simp only [bind_apply, h, modifyChannel_apply, hs, Session.report_nil]
      · exact Or.inr ⟨p, e, rfl, by simp only [bind_apply, h]⟩

/-- Most operations write the sound that is waiting and then change the channel. -/
theorem flush_then_cases (f : Channel → Channel) (d : Desk) :
    (∃ ws ch, Flushed d.channel ws ch ∧
      (do flush; modifyChannel f : Encoding Unit) d = .ok () ⟨f ch, d.session.report ws⟩) ∨
      ∃ p e, d.channel.pending = some p ∧
        (do flush; modifyChannel f : Encoding Unit) d =
          .error e ⟨d.channel.dequeue p, d.session⟩ := by
  rcases flush_cases d with ⟨ws, ch, hf, h⟩ | ⟨p, e, hp, h⟩
  · exact Or.inl ⟨ws, ch, hf, by simp only [bind_apply, h, modifyChannel_apply]⟩
  · exact Or.inr ⟨p, e, hp, by simp only [bind_apply, h]⟩

/-- **A channel ends** with the sound that was waiting and one command after it. -/
theorem finish_cases {d d' : Desk} (hopen : d.channel.finished = false)
    (h : finish d = .ok () d') :
    ∃ ws ch last, Flushed d.channel ws ch ∧ flush d = .ok () ⟨ch, d.session.report ws⟩ ∧
      ch.tuplet = none ∧ ch.terminator = .ok last ∧
      d' = ⟨{ ch.write last with finished := true }, d.session.report ws⟩ := by
  simp only [finish, channel_bind, hopen, Bool.false_eq_true, if_false] at h
  obtain ⟨⟨⟩, d₁, hflush, hend⟩ := bind_eq_ok h
  rcases flush_cases d with ⟨ws, ch, hf, hr⟩ | ⟨p, e, -, hr⟩
  · cases hr.symm.trans hflush
    -- the terminator is written only outside of tuplets, and only if the jump reaches far enough
    cases ht : ch.tuplet with
    | some entries => simp [terminate, Channel.inTuplet, ht] at hend
    | none =>
      cases hlast : ch.terminator with
      | error offset => simp [terminate, Channel.inTuplet, ht, hlast] at hend
      | ok last =>
        have hd' : ⟨{ ch.write last with finished := true }, d.session.report ws⟩ = d' := by
          simpa [terminate, Channel.inTuplet, ht, hlast] using hend
        exact ⟨ws, ch, last, hf, hr, ht, hlast, hd'.symm⟩
  · cases hr.symm.trans hflush

end Encoding

/-! ### Tuplets -/

/-- The channel with its tuplet closed and the tuplet's ticks counted. -/
def Channel.closeTuplet (ch : Channel) (ticks : Nat) : Channel :=
  { ch with tuplet := none, ticks := ch.ticks + ticks }

/-- The entries of the tuplet of `ch` are written, with some warnings. -/
inductive Closed (ch : Channel) (entries : List TupletEntry) (ticks : Nat) :
    List Warning → Channel → Prop
  /-- There were sounds among them. -/
  | timed {length : NoteLength} (ht : entries.any (·.isTimed) = true)
      (hlen : splitNote ticks ch.tempo ch.clock ch.cutoff = .ok length) :
      Closed ch entries ticks (length.warnings ch.name)
        ((ch.closeTuplet ticks).writeWithCutoff length.cutoff
          (·.writeEntries entries length.active))
  /-- There was none. -/
  | silent {perTick : Int} (ht : entries.any (·.isTimed) = false)
      (hper : unitsPerTick? ch.tempo ch.clock = some perTick) :
      Closed ch entries ticks []
        (((ch.closeTuplet ticks).writeEntries entries 0).writeSilence .rest (perTick * ticks))

/-- Nothing is left of the tuplet but its ticks. -/
theorem Closed.offStream {ch ch' : Channel} {entries : List TupletEntry} {ticks : Nat}
    {ws : List Warning} (h : Closed ch entries ticks ws ch') :
    ch'.offStream = (ch.closeTuplet ticks).offStream := by
  cases h with
  | timed ht hlen =>
    exact Channel.offStream_writeWithCutoff
      (fun ch₁ => Channel.offStream_writeEntries ch₁ entries _) _ _
  | silent ht hper => rw [Channel.offStream_writeSilence, Channel.offStream_writeEntries]

/-! ### Events -/

/-- What an accepted event did to the channel `ch`, with the warnings it gave. -/
inductive Accepted (ch : Channel) : Event → List Warning → Channel → Prop
  /-- A sound became an entry of the open tuplet. -/
  | entry {e : Event} {sound : Sound} {ticks : Nat} {entries : Array TupletEntry}
      (he : e.sound? = some (sound, ticks)) (ht : ch.tuplet = some entries) :
      Accepted ch e [] ((ch.notice sound).addEntry sound)
  /-- A sound waits now. -/
  | queue {e : Event} {sound : Sound} {ticks : Nat} {ws : List Warning} {ch' : Channel}
      (he : e.sound? = some (sound, ticks)) (ht : ch.tuplet = none)
      (hf : Flushed (ch.notice sound) ws ch') : Accepted ch e ws (ch'.enqueue sound ticks)
  /-- A tie made the sound that is waiting longer. -/
  | extend {ticks : Nat} {p : PendingSound} (ht : ch.tuplet = none) (hp : ch.pending = some p) :
      Accepted ch (.tie ticks) [] { ch with pending := some (p.extend ticks) }
  /-- A tie with nothing to extend is a wait. -/
  | tieAlone {ticks : Nat} (ht : ch.tuplet = none) (hp : ch.pending = none) :
      Accepted ch (.tie ticks) [] ((ch.notice .wait).enqueue .wait ticks)
  /-- A tie inside a tuplet is ignored. -/
  | tieIgnored {ticks : Nat} {entries : Array TupletEntry} (ht : ch.tuplet = some entries) :
      Accepted ch (.tie ticks) [.tieInTuplet ch.name] ch
  /-- An octave is selected. -/
  | octave {e : Event} {n : Int} {o : Octave} (he : e.octave? ch.octave = some n)
      (ho : (o.val : Int) = n) : Accepted ch e [] { ch with octave := o }
  /-- A pattern takes no notice of the tempo. -/
  | tempoIgnored {n : Nat} (hv : ch.isVirtual = true) : Accepted ch (.tempo n) [] ch
  /-- The tempo is set. -/
  | tempo {n : Nat} {ws : List Warning} {ch' : Channel} (hv : ch.isVirtual = false) (hn : n ≠ 0)
      (hf : Flushed ch ws ch') : Accepted ch (.tempo n) ws { ch' with tempo := n }
  /-- A pattern takes no notice of the cutoff. -/
  | cutoffIgnored {c : Cutoff} (hv : ch.isVirtual = true) : Accepted ch (.cutoff c) [] ch
  /-- The cutoff is set. -/
  | cutoff {c : Cutoff} {ws : List Warning} {ch' : Channel} (hv : ch.isVirtual = false)
      (hf : Flushed ch ws ch') : Accepted ch (.cutoff c) ws { ch' with cutoff := c }
  /-- The volume is set. -/
  | volume {n : Int} {ws : List Warning} {ch' : Channel}
      (hn : 0 ≤ n ∧ n ≤ ch.voice.maxVolume.toNat) (hf : Flushed ch ws ch') :
      Accepted ch (.volume n) ws (ch'.emitVolume (.ofNat n.toNat))
  /-- A tuplet is open now. -/
  | tupletStart {ws : List Warning} {ch' : Channel} (ht : ch.tuplet = none)
      (hf : Flushed ch ws ch') : Accepted ch .tupletStart ws { ch' with tuplet := some #[] }
  /-- The tuplet is written. -/
  | tupletEnd {ticks : Nat} {entries : Array TupletEntry} {ws : List Warning} {ch' : Channel}
      (ht : ch.tuplet = some entries) (hc : Closed ch entries.toList ticks ws ch') :
      Accepted ch (.tupletEnd ticks) ws ch'
  /-- The loop begins here. -/
  | loopPoint {ws : List Warning} {ch' : Channel} (ht : ch.tuplet = none)
      (hf : Flushed ch ws ch') : Accepted ch .loopPoint ws ch'.markLoop
  /-- The driver is brought into the current octave. -/
  | blockEnd {ws : List Warning} {ch' : Channel} (hf : Flushed ch ws ch') :
      Accepted ch .blockEnd ws (ch'.emitOctave ch'.octave)
  /-- A macro is switched on. -/
  | effect {f : Effect} {key : Nat} {everyNote : Bool} {ws : List Warning} {ch' : Channel}
      (hs : ch.voice.supports f = true) (hf : Flushed ch ws ch') :
      Accepted ch (.effect f key everyNote) ws
        (ch'.emitEffect f (Encoding.macroOperand key everyNote))
  /-- The voice does not know the effect. -/
  | unsupported {f : Effect} {key : Nat} {everyNote : Bool} (hs : ch.voice.supports f = false) :
      Accepted ch (.effect f key everyNote) [.unsupportedEffect ch.name f] ch
  /-- An effect is switched off. -/
  | effectOff {f : Effect} {ws : List Warning} {ch' : Channel} (hf : Flushed ch ws ch') :
      Accepted ch (.effectOff f) ws (ch'.emit (.effectOff f))

/-- What a refused event did to the channel `ch`. -/
inductive Refused (ch : Channel) : Event → Channel → Prop
  /-- Nothing. -/
  | same {e : Event} : Refused ch e ch
  /-- The sound that was waiting is lost. -/
  | lost {e : Event} {p : PendingSound} (hp : ch.pending = some p) : Refused ch e (ch.dequeue p)
  /-- The same, after the new sound was noticed. -/
  | lostNoticed {e : Event} {sound : Sound} {ticks : Nat} {p : PendingSound}
      (he : e.sound? = some (sound, ticks)) (hp : ch.pending = some p) :
      Refused ch e ((ch.notice sound).dequeue p)
  /-- The entries of the tuplet are lost. -/
  | tuplet {ticks : Nat} {entries : Array TupletEntry} (ht : ch.tuplet = some entries) :
      Refused ch (.tupletEnd ticks) (ch.closeTuplet ticks)
  /-- The markers of a tuplet without sounds are written, and then there is no length for it. -/
  | untimed {ticks : Nat} {entries : Array TupletEntry} (ht : ch.tuplet = some entries)
      (hu : entries.toList.any (·.isTimed) = false)
      (hper : unitsPerTick? ch.tempo ch.clock = none) :
      Refused ch (.tupletEnd ticks) ((ch.closeTuplet ticks).writeEntries entries.toList 0)

/-- How an operation for the event `e` ends: the event is accepted and its warnings are in the
journal, or it is refused. -/
def Event.Outcome (e : Event) (d : Desk) (result : EStateM.Result Error Desk Unit) : Prop :=
  (∃ ws ch s, Accepted d.channel e ws ch ∧ result = .ok () ⟨ch, s⟩ ∧
    s.journal.warnings.toList = d.session.journal.warnings.toList ++ ws) ∨
  ∃ err ch s, Refused d.channel e ch ∧ result = .error err ⟨ch, s⟩

namespace Encoding

/-- An operation that writes the sound that is waiting and then does what an event wants. -/
theorem outcome_flush {e : Event} {d : Desk} {f : Channel → Channel}
    (h : ∀ ws ch, Flushed d.channel ws ch → Accepted d.channel e ws (f ch)) :
    Event.Outcome e d ((do flush; modifyChannel f : Encoding Unit) d) := by
  rcases flush_then_cases f d with ⟨ws, ch, hf, hr⟩ | ⟨p, err, hp, hr⟩
  · exact Or.inl ⟨ws, f ch, _, h ws ch hf, hr, by simp⟩
  · exact Or.inr ⟨err, _, _, .lost hp, hr⟩

/-- A warning is given and nothing else happens. -/
theorem outcome_warn {e : Event} {d : Desk} {w : Warning}
    (h : Accepted d.channel e [w] d.channel) : Event.Outcome e d (warn w d) := by
  cases hstrict : d.session.journal.strict with
  | false =>
    refine Or.inl ⟨[w], d.channel, d.session.report [w], h, ?_, by simp⟩
    simp [warn, onSession, Session.warn, Journal.warn, hstrict, Session.report]
  | true =>
    refine Or.inr ⟨.promoted w, d.channel, d.session, .same, ?_⟩
    simp [warn, onSession, Session.warn, Journal.warn, hstrict]

theorem enter_outcome {e : Event} {sound : Sound} {ticks : Nat}
    (he : e.sound? = some (sound, ticks)) (d : Desk) : Event.Outcome e d (enter sound ticks d) := by
  simp only [enter, modifyChannel_bind, channel_bind]
  cases ht : d.channel.tuplet with
  | some entries =>
    rw [if_pos (by simp [Channel.inTuplet, Channel.notice, ht])]
    exact Or.inl ⟨[], _, d.session, .entry he ht, rfl, by simp⟩
  | none =>
    rw [if_neg (by simp [Channel.inTuplet, Channel.notice, ht])]
    rcases flush_then_cases (·.enqueue sound ticks) ⟨d.channel.notice sound, d.session⟩ with
      ⟨ws, ch, hf, hr⟩ | ⟨p, err, hp, hr⟩
    · exact Or.inl ⟨ws, _, _, .queue he ht hf, hr, by simp⟩
    · -- the channel has noticed the new sound when the old one is lost
      exact Or.inr ⟨err, _, _, .lostNoticed he hp, hr⟩

theorem tie_outcome (ticks : Nat) (d : Desk) : Event.Outcome (.tie ticks) d (tie ticks d) := by
  simp only [tie, channel_bind]
  cases ht : d.channel.tuplet with
  | some entries =>
    rw [if_pos (by simp [Channel.inTuplet, ht])]
    exact outcome_warn (.tieIgnored ht)
  | none =>
    rw [if_neg (by simp [Channel.inTuplet, ht])]
    cases hp : d.channel.pending with
    | some p => exact Or.inl ⟨[], _, d.session, .extend ht hp, rfl, by simp⟩
    | none =>
      -- nothing is waiting, so entering the wait writes nothing
      refine Or.inl ⟨[], _, d.session, .tieAlone ht hp, ?_, by simp⟩
      simp only [enter, modifyChannel_bind, channel_bind]
      rw [if_neg (by simp [Channel.inTuplet, Channel.notice, ht])]
      simp [flush, bind_apply, Channel.notice, hp, channel]

theorem setOctave_outcome {e : Event} {n : Int} {d : Desk}
    (he : e.octave? d.channel.octave = some n) : Event.Outcome e d (setOctave n d) := by
  simp only [setOctave, channel_bind]
  split
  · next h =>
    refine Or.inl ⟨[], _, d.session, .octave he ?_, rfl, by simp⟩
    simp
    omega
  · exact Or.inr ⟨_, _, _, .same, rfl⟩

theorem shiftOctave_outcome {e : Event} {steps : Int} {d : Desk}
    (he : e.octave? d.channel.octave = some (d.channel.octave.val + steps)) :
    Event.Outcome e d (shiftOctave steps d) :=
  setOctave_outcome he

theorem setTempo_outcome (n : Nat) (d : Desk) : Event.Outcome (.tempo n) d (setTempo n d) := by
  simp only [setTempo, channel_bind]
  split
  · next hv => exact Or.inl ⟨[], _, d.session, .tempoIgnored hv, rfl, by simp⟩
  · next hv =>
    split
    · exact Or.inr ⟨_, _, _, .same, rfl⟩
    · next hn => exact outcome_flush fun ws ch hf => .tempo (by simpa using hv) hn hf

theorem setCutoff_outcome (c : Cutoff) (d : Desk) :
    Event.Outcome (.cutoff c) d (setCutoff c d) := by
  simp only [setCutoff, channel_bind]
  split
  · next hv => exact Or.inl ⟨[], _, d.session, .cutoffIgnored hv, rfl, by simp⟩
  · next hv => exact outcome_flush fun ws ch hf => .cutoff (by simpa using hv) hf

theorem setVolume_outcome (n : Int) (d : Desk) : Event.Outcome (.volume n) d (setVolume n d) := by
  simp only [setVolume, channel_bind]
  split
  · next hn => exact outcome_flush fun ws ch hf => .volume hn hf
  · exact Or.inr ⟨_, _, _, .same, rfl⟩

theorem beginTuplet_outcome (d : Desk) : Event.Outcome .tupletStart d (beginTuplet d) := by
  simp only [beginTuplet, channel_bind]
  split
  · exact Or.inr ⟨_, _, _, .same, rfl⟩
  · next ht =>
    exact outcome_flush fun ws ch hf => .tupletStart (by simpa [Channel.inTuplet] using ht) hf

/-- Closing a tuplet, once it is known to be open. -/
theorem endTuplet_apply {d : Desk} {entries : Array TupletEntry}
    (ht : d.channel.tuplet = some entries) (ticks : Nat) :
    endTuplet ticks d =
      (if entries.toList.any (·.isTimed) then do
        let length ← noteLength ticks
        modifyChannel fun ch =>
          ch.writeWithCutoff length.cutoff (·.writeEntries entries.toList length.active)
      else do
        modifyChannel fun ch => ch.writeEntries entries.toList 0
        let length ← silenceLength ticks
        modifyChannel (·.writeSilence .rest length) : Encoding Unit)
      ⟨d.channel.closeTuplet ticks, d.session⟩ := by
  simp only [endTuplet, channel_bind, ht]
  rfl

theorem endTuplet_outcome (ticks : Nat) (d : Desk) :
    Event.Outcome (.tupletEnd ticks) d (endTuplet ticks d) := by
  cases ht : d.channel.tuplet with
  | none =>
    refine Or.inr ⟨.tupletNotOpen d.channel.name, d.channel, d.session, .same, ?_⟩
    simp [endTuplet, ht]
  | some entries =>
    rw [endTuplet_apply ht]
    split
    · next hany =>
      rcases noteLength_cases ticks ⟨d.channel.closeTuplet ticks, d.session⟩ with
        ⟨len, hlen, h⟩ | ⟨err, h⟩
      · refine Or.inl ⟨_, _, _, .tupletEnd ht (.timed hany hlen), ?_, Session.warnings_report _ _⟩
        simp only [bind_apply, h, modifyChannel_apply]
        rfl
      · exact Or.inr ⟨err, _, d.session, .tuplet ht, by simp only [bind_apply, h]⟩
    · next hany =>
      -- the markers are written first, and they leave tempo and clock alone
      have hany : entries.toList.any (·.isTimed) = false := by simpa using hany
      have hframe := Channel.offStream_writeEntries (d.channel.closeTuplet ticks) entries.toList 0
      have htempo : ((d.channel.closeTuplet ticks).writeEntries entries.toList 0).tempo =
          d.channel.tempo := congrArg (·.tempo) hframe
      have hclock : ((d.channel.closeTuplet ticks).writeEntries entries.toList 0).clock =
          d.channel.clock := congrArg (·.clock) hframe
      rcases silenceLength_cases ticks
          ⟨(d.channel.closeTuplet ticks).writeEntries entries.toList 0, d.session⟩ with
        ⟨perTick, hper, h⟩ | ⟨hper, err, h⟩
      all_goals simp only [htempo, hclock] at hper
      · refine Or.inl ⟨[], _, d.session, .tupletEnd ht (.silent hany hper), ?_, by simp⟩
        simp only [bind_apply, modifyChannel_apply, h]
      · refine Or.inr ⟨err, _, d.session, .untimed ht hany hper, ?_⟩
        simp only [bind_apply, modifyChannel_apply, h]

theorem setLoopPoint_outcome (d : Desk) : Event.Outcome .loopPoint d (setLoopPoint d) := by
  simp only [setLoopPoint, channel_bind]
  split
  · exact Or.inr ⟨_, _, _, .same, rfl⟩
  · next ht =>
    exact outcome_flush fun ws ch hf => .loopPoint (by simpa [Channel.inTuplet] using ht) hf

theorem useEffect_outcome (f : Effect) (key : Nat) (everyNote : Bool) (d : Desk) :
    Event.Outcome (.effect f key everyNote) d (useEffect f key everyNote d) := by
  simp only [useEffect, channel_bind]
  split
  · next hs =>
    rw [bind_apply]
    simp only [onSession, Session.onMacros]
    cases MacroBank.on f (Registry.addRef key) d.session.macros with
    | error err bank => exact Or.inr ⟨err, _, _, .same, rfl⟩
    | ok a bank =>
      -- the reference is counted, and the journal is as it was
      exact outcome_flush (d := ⟨d.channel, { d.session with macros := bank }⟩)
        fun ws ch hf => .effect hs hf
  · next hs => exact outcome_warn (.unsupported (by simpa using hs))

end Encoding

/-- **An event is accepted or refused.** -/
theorem Event.apply_cases (e : Event) (d : Desk) : Event.Outcome e d (e.apply d) := by
  cases e with
  | note semitone ticks => exact Encoding.enter_outcome rfl d
  | rest ticks => exact Encoding.enter_outcome rfl d
  | wait ticks => exact Encoding.enter_outcome rfl d
  | tie ticks => exact Encoding.tie_outcome ticks d
  | octave n => exact Encoding.setOctave_outcome rfl
  | octaveUp => exact Encoding.shiftOctave_outcome rfl
  | octaveDown => exact Encoding.shiftOctave_outcome rfl
  | tempo n => exact Encoding.setTempo_outcome n d
  | volume n => exact Encoding.setVolume_outcome n d
  | cutoff c => exact Encoding.setCutoff_outcome c d
  | tupletStart => exact Encoding.beginTuplet_outcome d
  | tupletEnd ticks => exact Encoding.endTuplet_outcome ticks d
  | loopPoint => exact Encoding.setLoopPoint_outcome d
  | blockEnd => exact Encoding.outcome_flush fun ws ch hf => .blockEnd hf
  | effect f key everyNote => exact Encoding.useEffect_outcome f key everyNote d
  | effectOff f => exact Encoding.outcome_flush fun ws ch hf => .effectOff hf

/-- An event that succeeds was accepted, and none of the warnings is forgotten. -/
theorem Event.accepted_of_ok {e : Event} {d d' : Desk} (h : e.apply d = .ok () d') :
    ∃ ws, Accepted d.channel e ws d'.channel ∧
      d'.session.journal.warnings.toList = d.session.journal.warnings.toList ++ ws := by
  rcases Event.apply_cases e d with ⟨ws, ch, s, hacc, hr, hws⟩ | ⟨err, ch, s, -, hr⟩
  · cases hr.symm.trans h
    exact ⟨ws, hacc, hws⟩
  · cases hr.symm.trans h

end Chiptune
