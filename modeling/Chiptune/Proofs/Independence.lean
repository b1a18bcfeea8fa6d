import Chiptune.Proofs.Following
import Chiptune.Proofs.Registration
import Chiptune.Proofs.Synchrony

/-!
# Channels do not interfere

The channels of a song share a session.  Events are entered on them in any order, and the next one
is entered also after a refused one.  What an event does to a channel, and what is told of it, does
not depend on what was entered on the others: it is what would have happened if they were not there.

An event depends on its session only by which macros there are, and no event changes that.  So the
joint run and the run of one channel alone go through the same states of this channel.

## Main definitions

* `Report` — what is told of an event on a channel.
* `Song.attempt`, `Song.attemptSteps` — events on the channels of a song, in any order.
* `Song.compiled` — how the end of a channel turns out, and its bytes then.
* `Song.Accounts` — reports that tell everything that has changed in a song and its session.

## Main results

* `Song.attempt_eq` — what an event does depends on its channel and on the macros that there are.
* `Song.attemptSteps_agree` — a run agrees with that of one channel alone, about this channel.
* `Song.attemptSteps_accounts` — nothing happens that is not told.
* `attemptSteps_independent` — channels do not interfere.
-/

namespace Chiptune

/-! ### Names and voices -/

/-- The name of a channel and its voice. -/
def Channel.seat (ch : Channel) : String × Voice := (ch.name, ch.voice)

theorem Flushed.seat_eq {ch ch' : Channel} {ws : List Warning} (h : Flushed ch ws ch') :
    ch'.seat = ch.seat := by
  have hframe : ch'.seat = ch.settled.seat := congrArg (·.seat) h.offStream
  rw [hframe, Channel.settled]
  split <;> rfl

theorem Accepted.seat_eq {ch ch' : Channel} {e : Event} {ws : List Warning}
    (h : Accepted ch e ws ch') : ch'.seat = ch.seat := by
  cases h with
  | @entry _ s _ _ he ht => exact congrArg (·.seat) (Channel.offMarks_addEntry (ch.notice s) s)
  | queue he ht hf => exact hf.seat_eq
  | extend | tieAlone | tieIgnored | octave | tempoIgnored | cutoffIgnored | unsupported => rfl
  | tempo _ _ hf | cutoff _ hf | tupletStart _ hf | loopPoint _ hf => exact hf.seat_eq
  | volume _ hf | effect _ hf | effectOff hf =>
    exact (congrArg (·.seat) (Channel.offMarks_emit _ _)).trans hf.seat_eq
  | blockEnd hf => exact (congrArg (·.seat) (Channel.offMarks_emitOctave _ _)).trans hf.seat_eq
  | tupletEnd ht hc => exact congrArg (·.seat) hc.offStream

theorem Refused.seat_eq {ch ch' : Channel} {e : Event} (h : Refused ch e ch') :
    ch'.seat = ch.seat := by
  cases h with
  | same | lost | lostNoticed | tuplet => rfl
  | untimed => exact congrArg (·.seat) (Channel.offStream_writeEntries _ _ _)

/-- Whatever comes of an event, the channel keeps its name and its voice, and is extended by whole
commands. -/
theorem Event.apply_extends (e : Event) (d : Desk) :
    (e.apply d).state.channel.seat = d.channel.seat ∧
      (d.channel.Orderly → (e.apply d).state.channel.Orderly ∧
        ∃ cs, Channel.Extended d.channel cs (e.apply d).state.channel) := by
  rcases Event.apply_cases e d with ⟨ws, ch, s, hacc, hr, -⟩ | ⟨err, ch, s, href, hr⟩
  · rw [hr]
    refine ⟨hacc.seat_eq, fun ho => ?_⟩
    obtain ⟨ts, hrender, -⟩ := hacc.follows ho
    obtain ⟨ho', cs, hext, -⟩ := hrender ho
    exact ⟨ho', cs, hext⟩
  · rw [hr]
    refine ⟨href.seat_eq, fun ho => ?_⟩
    obtain ⟨ho', hext, -⟩ := href.extended ho
    exact ⟨ho', hext⟩

/-- With sessions that tolerate warnings and have the same macros, an operation does the same. -/
theorem Encoding.ConsultsAt.settles {α : Type} {act : Encoding α} {ch : Channel}
    {refs : List (Effect × Nat)} (h : act.ConsultsAt ch refs)
    (missing? : Effect → Nat → Option Error) :
    ∃ qs ch' o, ∀ s : Session, s.journal.strict = false → s.missing? = missing? →
      act ⟨ch, s⟩ = Dialogue.result ch' (s.grantAll qs) o := by
  obtain ⟨t, -, hrun⟩ := h
  refine ⟨(t.settle missing?).1, (t.settle missing?).2.1, (t.settle missing?).2.2, ?_⟩
  rintro s hs rfl
  rw [hrun, t.run_tolerant hs]

/-! ### Events on the channels of a song -/

/-- What is told of an event on a channel. -/
structure Report where
  /-- The name of the channel. -/
  channel : String
  /-- Whether the event was accepted, or why not. -/
  outcome : Except Error Unit
  /-- The bytes that were appended. -/
  bytes : List UInt8
  /-- The warnings that were recorded. -/
  warnings : List Warning
  /-- The references that were counted. -/
  references : Effect → Nat → Nat

namespace Song

/-- The bytes of the channel of a name. -/
def bytes (song : Song) (name : String) : List UInt8 :=
  ((song.named? name).map (·.data.toList)).getD []

/-- What is told of an operation on the channel of a name, by how it has ended. -/
def report (name : String) (before : Song × Session)
    (r : EStateM.Result Error (Song × Session) Unit) : Report where
  channel := name
  outcome := r.outcome
  bytes := (r.state.1.bytes name).drop (before.1.bytes name).length
  warnings := r.state.2.warnings.drop before.2.warnings.length
  references e key := r.state.2.refCount e key - before.2.refCount e key

/-- An event on the channel of a name.  Nothing happens if there is no such channel. -/
def attempt (p : Song × Session) (step : String × Event) : Option Report × Song × Session :=
  match p.1.onChannel? step.1 step.2.apply p.2 with
  | none => (none, p)
  | some r => (some (report step.1 p r), r.state)

/-- Events on the channels of a song.  The next one is entered also after a refused one. -/
def attemptSteps : List (String × Event) → Song × Session → List Report × Song × Session
  | [], p => ([], p)
  | step :: steps, p =>
    let (r, p₁) := attempt p step
    let (rs, p₂) := attemptSteps steps p₁
    (r.toList ++ rs, p₂)

/-- How the end of a channel turns out, and the bytes that the channel has then. -/
def compiled (p : Song × Session) (name : String) : Option (Except Error Unit × List UInt8) :=
  (p.1.named? name).map fun ch =>
    let r := Encoding.finish ⟨ch, p.2⟩
    (r.outcome, r.state.channel.data.toList)

theorem reports_cons (step : String × Event) (steps : List (String × Event)) (p : Song × Session) :
    (attemptSteps (step :: steps) p).1 =
      (attempt p step).1.toList ++ (attemptSteps steps (attempt p step).2).1 := rfl

theorem state_cons (step : String × Event) (steps : List (String × Event)) (p : Song × Session) :
    (attemptSteps (step :: steps) p).2 = (attemptSteps steps (attempt p step).2).2 := rfl

/-! ### One event -/

theorem attempt_of_none {p : Song × Session} {name : String} (h : p.1.named? name = none)
    (e : Event) : attempt p (name, e) = (none, p) := by
  simp only [attempt, onChannel?_eq, h, Option.map_none]

/-- **What an event does depends on its channel**, and on the session only by the macros that there
are: the appeals `qs` to it, the channel `ch'` that is left and the outcome `o` are always the
same. -/
theorem attempt_eq (e : Event) (ch : Channel) {s₀ : Session} (hs₀ : s₀.journal.strict = false) :
    ∃ qs ch' o, ch'.name = ch.name ∧
      (ch.Orderly → ch'.Orderly ∧ ∃ cs, Channel.Extended ch cs ch') ∧
      ∀ (song : Song) (s : Session), song.named? ch.name = some ch → s.journal.strict = false →
        s.missing? = s₀.missing? →
          attempt (song, s) (ch.name, e) =
            (some ⟨ch.name, o, ch'.data.toList.drop ch.data.size, qs.filterMap Appeal.warning?,
                fun e key => if s₀.missing? e key = none then qs.count (.refer e key) else 0⟩,
              song.put ch.name ch', s.grantAll qs) := by
  obtain ⟨qs, ch', o, hrun⟩ := (e.apply_consults ch).settles s₀.missing?
  have hstate : (e.apply ⟨ch, s₀⟩).state.channel = ch' := by
    rw [hrun s₀ hs₀ rfl]
    cases o <;> rfl
  obtain ⟨hseat, hext⟩ := e.apply_extends ⟨ch, s₀⟩
  rw [hstate] at hseat hext
  have hname : ch'.name = ch.name := congrArg Prod.fst hseat
  refine ⟨qs, ch', o, hname, hext, fun song s hch hs hmissing => ?_⟩
  have hbytes : (song.put ch.name ch').bytes ch.name = ch'.data.toList := by
    simp [bytes, named?_put hch hname]
  have hbytes₀ : song.bytes ch.name = ch.data.toList := by simp [bytes, hch]
  have hwarnings : (s.grantAll qs).warnings = s.warnings ++ qs.filterMap Appeal.warning? :=
    s.warnings_grantAll qs
  have hresult : (Dialogue.result ch' (s.grantAll qs) o).mapState
        (fun d => (song.put ch.name d.channel, d.session)) =
      match o with
      | .ok a => .ok a (song.put ch.name ch', s.grantAll qs)
      | .error err => .error err (song.put ch.name ch', s.grantAll qs) := by
    cases o <;> rfl
  simp only [attempt, onChannel?_eq, hch, Option.map_some, hrun s hs hmissing, hresult]
  cases o <;>
    simp [report, EStateM.Result.state, EStateM.Result.outcome, hbytes, hbytes₀, hwarnings,
      s.refCount_grantAll, hmissing]

/-! ### Runs beside each other -/

/-- Two songs with the same channel of the name `c`, in sessions that tolerate warnings and have
the same macros. -/
structure Agree (c : String) (p q : Song × Session) : Prop where
  /-- The channel is the same. -/
  named : p.1.named? c = q.1.named? c
  /-- The first session tolerates warnings. -/
  tolerant : p.2.journal.strict = false
  /-- The second session tolerates warnings. -/
  tolerant' : q.2.journal.strict = false
  /-- There are the same macros. -/
  missing : p.2.missing? = q.2.missing?

/-- An event on another channel changes nothing about this one. -/
theorem Agree.attempt_other {c name : String} {p q : Song × Session} (h : Agree c p q)
    (hname : name ≠ c) (e : Event) :
    (attempt p (name, e)).1.toList.filter (·.channel == c) = [] ∧
      Agree c (attempt p (name, e)).2 q := by
  obtain ⟨song, s⟩ := p
  cases hch : song.named? name with
  | none =>
    rw [attempt_of_none hch]
    exact ⟨rfl, h⟩
  | some ch =>
    have hchname := name_of_named? hch
    subst hchname
    obtain ⟨qs, ch', o, hname', -, heq⟩ := attempt_eq e ch h.tolerant
    rw [heq song s hch h.tolerant rfl]
    refine ⟨by simp [hname], ?_, ?_, h.tolerant', ?_⟩
    · rw [named?_put hch hname', if_neg hname, h.named]
    · exact (s.strict_grantAll qs).trans h.tolerant
    · exact (s.missing?_grantAll qs).trans h.missing

/-- An event on the channel does the same in both songs. -/
theorem Agree.attempt_same {c : String} {p q : Song × Session} (h : Agree c p q) (e : Event) :
    (attempt p (c, e)).1.toList.filter (·.channel == c) = (attempt q (c, e)).1.toList ∧
      Agree c (attempt p (c, e)).2 (attempt q (c, e)).2 := by
  obtain ⟨song, s⟩ := p
  obtain ⟨song', s'⟩ := q
  have hnamed : song'.named? c = song.named? c := h.named.symm
  have hmissing : s'.missing? = s.missing? := h.missing.symm
  cases hch : song.named? c with
  | none =>
    rw [hch] at hnamed
    rw [attempt_of_none hch, attempt_of_none hnamed]
    exact ⟨rfl, h⟩
  | some ch =>
    rw [hch] at hnamed
    have hchname := name_of_named? hch
    subst hchname
    obtain ⟨qs, ch', o, hname', -, heq⟩ := attempt_eq e ch h.tolerant
    rw [heq song s hch h.tolerant rfl, heq song' s' hnamed h.tolerant' hmissing]
    refine ⟨by simp, ?_, ?_, ?_, ?_⟩
    · rw [named?_put hch hname', named?_put hnamed hname', if_pos rfl, if_pos rfl]
    · exact (s.strict_grantAll qs).trans h.tolerant
    · exact (s'.strict_grantAll qs).trans h.tolerant'
    · rw [s.missing?_grantAll, s'.missing?_grantAll, hmissing]

/-- **A run agrees with that of one channel alone**, about this channel. -/
theorem attemptSteps_agree {c : String} : ∀ (steps : List (String × Event)) {p q : Song × Session},
    Agree c p q →
      (attemptSteps steps p).1.filter (·.channel == c) =
          (attemptSteps (steps.filter (·.1 == c)) q).1 ∧
        Agree c (attemptSteps steps p).2 (attemptSteps (steps.filter (·.1 == c)) q).2 := by
  intro steps
  induction steps with
  | nil =>
    intro p q h
    exact ⟨rfl, h⟩
  | cons step steps ih =>
    intro p q h
    obtain ⟨name, e⟩ := step
    rw [reports_cons, state_cons, List.filter_append]
    by_cases hname : name = c
    · subst hname
      obtain ⟨hreport, hstep⟩ := h.attempt_same e
      obtain ⟨hreports, hrun⟩ := ih hstep
      rw [List.filter_cons_of_pos (by simp), reports_cons, state_cons, hreport, hreports]
      exact ⟨rfl, hrun⟩
    · obtain ⟨hreport, hstep⟩ := h.attempt_other hname e
      obtain ⟨hreports, hrun⟩ := ih hstep
      rw [List.filter_cons_of_neg (by simpa using hname), hreport, hreports]
      exact ⟨rfl, hrun⟩

theorem Agree.compiled_eq {c : String} {p q : Song × Session} (h : Agree c p q) :
    compiled p c = compiled q c := by
  unfold compiled
  rw [h.named]
  cases q.1.named? c with
  | none => rfl
  | some ch =>
    obtain ⟨qs, ch', o, heq⟩ := (Encoding.finish_consults ch).settles q.2.missing?
    rw [Option.map_some, Option.map_some, heq p.2 h.tolerant h.missing, heq q.2 h.tolerant' rfl]
    cases o <;> rfl

/-! ### Nothing happens that is not told -/

/-- The reports `rs` tell everything that has changed from `p` to `p'`. -/
structure Accounts (p : Song × Session) (rs : List Report) (p' : Song × Session) : Prop where
  /-- The warnings are those of the reports, in order. -/
  warnings : p'.2.warnings = p.2.warnings ++ rs.flatMap (·.warnings)
  /-- The references are those of the reports. -/
  refCount : ∀ e key, p'.2.refCount e key = p.2.refCount e key + (rs.map (·.references e key)).sum
  /-- The bytes of each channel are those of the reports about it. -/
  bytes : ∀ c, p'.1.bytes c = p.1.bytes c ++ (rs.filter (·.channel == c)).flatMap (·.bytes)
  /-- There are reports about channels of the song only. -/
  channels : ∀ r ∈ rs, (p.1.named? r.channel).isSome = true
  /-- There are the same channels. -/
  isSome : ∀ c, (p'.1.named? c).isSome = (p.1.named? c).isSome

theorem Accounts.refl (p : Song × Session) : Accounts p [] p :=
  ⟨by simp, by simp, by simp, by simp, fun _ => rfl⟩

theorem Accounts.trans {p p' p'' : Song × Session} {rs rs' : List Report} (h : Accounts p rs p')
    (h' : Accounts p' rs' p'') : Accounts p (rs ++ rs') p'' where
  warnings := by rw [h'.warnings, h.warnings, List.flatMap_append, List.append_assoc]
  refCount e key := by
    rw [h'.refCount, h.refCount, List.map_append, List.sum_append]
    omega
  bytes c := by
    rw [h'.bytes, h.bytes, List.filter_append, List.flatMap_append, List.append_assoc]
  channels r hr := by
    rcases List.mem_append.mp hr with hr | hr
    · exact h.channels r hr
    · rw [← h.isSome]
      exact h'.channels r hr
  isSome c := (h'.isSome c).trans (h.isSome c)

/-- A song with all channels in order, in a session that tolerates warnings. -/
structure Ready (p : Song × Session) : Prop where
  /-- The session tolerates warnings. -/
  tolerant : p.2.journal.strict = false
  /-- The channels are in order. -/
  orderly : ∀ c ch, p.1.named? c = some ch → ch.Orderly

theorem attempt_accounts {p : Song × Session} (h : Ready p) (step : String × Event) :
    Accounts p (attempt p step).1.toList (attempt p step).2 ∧ Ready (attempt p step).2 := by
  obtain ⟨song, s⟩ := p
  obtain ⟨name, e⟩ := step
  cases hch : song.named? name with
  | none =>
    rw [attempt_of_none hch]
    exact ⟨.refl _, h⟩
  | some ch =>
    have hchname := name_of_named? hch
    subst hchname
    obtain ⟨qs, ch', o, hname', hext, heq⟩ := attempt_eq e ch h.tolerant
    obtain ⟨ho', cs, hcs⟩ := hext (h.orderly ch.name ch hch)
    have hput := named?_put hch hname'
    rw [heq song s hch h.tolerant rfl]
    refine ⟨⟨?_, ?_, ?_, ?_, ?_⟩, (s.strict_grantAll qs).trans h.tolerant, ?_⟩
    · simpa [Session.warnings] using s.warnings_grantAll qs
    · intro e key
      simpa using s.refCount_grantAll qs e key
    · intro c
      by_cases hc : ch.name = c
      · subst hc
        -- what is appended is all that comes after the bytes before
        have hdata : ch'.data.toList = ch.data.toList ++ ch'.data.toList.drop ch.data.size := by
          rw [hcs.data, ← Array.length_toList, List.drop_left]
        simpa [bytes, hput, hch] using hdata
      · simp [bytes, hput, hc]
    · simp [hch]
    · intro c
      by_cases hc : ch.name = c
      · subst hc
        simp [hput, hch]
      · simp [hput, hc]
    · intro c ch₁ hch₁
      rw [hput] at hch₁
      split at hch₁
      · cases hch₁
        exact ho'
      · exact h.orderly c ch₁ hch₁

/-- **Nothing happens that is not told.** -/
theorem attemptSteps_accounts : ∀ (steps : List (String × Event)) {p : Song × Session}, Ready p →
    Accounts p (attemptSteps steps p).1 (attemptSteps steps p).2 := by
  intro steps
  induction steps with
  | nil =>
    intro p _
    exact .refl p
  | cons step steps ih =>
    intro p h
    obtain ⟨hstep, hready⟩ := attempt_accounts h step
    exact hstep.trans (ih hready)

/-! ### The channels of a platform -/

theorem nodup_names_new (p : Platform) (clock : FrameClock) (tempo : Nat) :
    (new p clock tempo).names.Nodup := by
  have hnames : (new p clock tempo).names = patternName :: p.voices.map (·.1) := by
    simp [names, new, Channel.new]
  rw [hnames]
  cases p <;> decide

theorem exists_of_named?_new {p : Platform} {clock : FrameClock} {tempo : Nat} {c : String}
    {ch : Channel} (h : (new p clock tempo).named? c = some ch) :
    ∃ name voice, ch = .new name voice clock tempo := by
  unfold named? at h
  split at h
  · cases h
    exact ⟨_, _, rfl⟩
  · have hmem := List.mem_of_find?_eq_some h
    obtain ⟨v, -, rfl⟩ := List.mem_map.mp hmem
    exact ⟨_, _, rfl⟩

theorem bytes_new (p : Platform) (clock : FrameClock) (tempo : Nat) (c : String) :
    (new p clock tempo).bytes c = [] := by
  unfold bytes
  cases hch : (new p clock tempo).named? c with
  | none => rfl
  | some ch =>
    obtain ⟨name, voice, rfl⟩ := exists_of_named?_new hch
    rfl

/-- Every report is about one of the names, so sums over the names leave none out. -/
theorem sum_filter_channel (f : Report → Nat) {names : List String} (hnodup : names.Nodup)
    {rs : List Report} (h : ∀ r ∈ rs, r.channel ∈ names) :
    (names.map fun c => ((rs.filter (·.channel == c)).map f).sum).sum = (rs.map f).sum := by
  induction rs with
  | nil => simp
  | cons r rs ih =>
    have hcons (c : String) : (((r :: rs).filter (·.channel == c)).map f).sum =
        (if c = r.channel then f r else 0) + ((rs.filter (·.channel == c)).map f).sum := by
      by_cases hc : c = r.channel
      · subst hc
        simp
      · simp [hc, Ne.symm hc]
    have hone : (names.map fun c => if c = r.channel then f r else 0).sum = f r := by
      have hcount := List.count_eq_one_of_mem hnodup (h r List.mem_cons_self)
      rw [List.sum_map_eq_nsmul_single r.channel _ fun c hc _ => if_neg hc, hcount, one_nsmul,
        if_pos rfl]
    rw [List.map_congr_left fun c _ => hcons c, List.sum_map_add, hone,
      ih fun r' hr' => h r' (List.mem_cons_of_mem _ hr'), List.map_cons, List.sum_cons]

end Song

/-- **Channels do not interfere.**  Macros are defined for the channels of a platform, and events
are entered on them in any order, also after refused ones.  Then what is told of the events on a
channel, the channel that is left and its compiled bytes are those of a run in which only this
channel has events.  The reports tell everything: the bytes of a channel and the warnings are those
of the reports.  The references to a macro are those of the runs of the single channels together. -/
theorem attemptSteps_independent (platform : Platform) (clock : FrameClock) (tempo : Nat)
    (defs : List MacroDef) {options : Options} (htolerant : options.warningsAsErrors = false)
    (steps : List (String × Event)) :
    let start := (Song.new platform clock tempo, (Session.defineMacros defs (.new options)).state)
    let run := Song.attemptSteps steps start
    let alone := fun c => Song.attemptSteps (steps.filter (·.1 == c)) start
    (∀ c, run.1.filter (·.channel == c) = (alone c).1 ∧
        run.2.1.named? c = (alone c).2.1.named? c ∧
        run.2.1.bytes c = (run.1.filter (·.channel == c)).flatMap (·.bytes) ∧
        Song.compiled run.2 c = Song.compiled (alone c).2 c ∧
        ∀ steps', steps'.filter (·.1 == c) = steps.filter (·.1 == c) →
          Song.compiled (Song.attemptSteps steps' start).2 c = Song.compiled run.2 c) ∧
      run.2.2.warnings = run.1.flatMap (·.warnings) ∧
      ∀ e key, run.2.2.refCount e key =
        (start.1.names.map fun c => (alone c).2.2.refCount e key).sum := by
  intro start run alone
  -- definitions leave the journal and the counts as they are at the start of a session
  have hrest := Session.defineMacros_keeps_rest defs (.new options) ⟨rfl, rfl⟩
  have hcount : start.2.refCount = (Session.new options).refCount :=
    Session.defineMacros_keeps_refCount defs (.new options) rfl
  have hstrict : start.2.journal.strict = false :=
    (congrArg Journal.strict hrest.2).trans htolerant
  have hready : Song.Ready start := by
    refine ⟨hstrict, fun c ch hch => ?_⟩
    obtain ⟨name, voice, rfl⟩ := Song.exists_of_named?_new hch
    exact .of_none rfl
  have hagree (c : String) : Song.Agree c start start := ⟨rfl, hstrict, hstrict, rfl⟩
  have haccounts := Song.attemptSteps_accounts steps hready
  refine ⟨fun c => ?_, ?_, fun e key => ?_⟩
  · obtain ⟨hreports, hsame⟩ := Song.attemptSteps_agree steps (hagree c)
    refine ⟨hreports, hsame.named, ?_, hsame.compiled_eq, fun steps' hsteps' => ?_⟩
    · rw [haccounts.bytes, Song.bytes_new, List.nil_append]
    · -- both lists of steps agree with the steps of the channel alone
      obtain ⟨-, hsame'⟩ := Song.attemptSteps_agree steps' (hagree c)
      rw [hsteps'] at hsame'
      rw [hsame'.compiled_eq]
      exact hsame.compiled_eq.symm
  · have hnone : start.2.warnings = [] := congrArg (·.warnings.toList) hrest.2
    rw [haccounts.warnings, hnone, List.nil_append]
  · -- each report is on one channel of the song, so the counts add up
    have hmem : ∀ r ∈ run.1, r.channel ∈ start.1.names := by
      intro r hr
      obtain ⟨ch, hch⟩ := Option.isSome_iff_exists.mp (haccounts.channels r hr)
      exact Song.mem_names_of_named? hch
    have hzero : start.2.refCount e key = 0 := by
      rw [hcount, Session.refCount_new]
    have halone (c : String) : (alone c).2.2.refCount e key =
        ((run.1.filter (·.channel == c)).map (·.references e key)).sum := by
      rw [(Song.attemptSteps_agree steps (hagree c)).1]
      rw [(Song.attemptSteps_accounts (steps.filter (·.1 == c)) hready).refCount, hzero,
        Nat.zero_add]
    rw [haccounts.refCount, hzero, Nat.zero_add, List.map_congr_left fun c _ => halone c]
    exact (Song.sum_filter_channel _ (Song.nodup_names_new platform clock tempo) hmem).symm

/-- Two voices and the patterns share a macro.  The last event of voice A is refused after the
reference was counted, since the note before it has no length. -/
theorem attemptSteps_independent_shared :
    let start := (Song.new .c64 ⟨50, false⟩ 120,
      (Session.defineMacros [⟨.adsr, some 3, ⟨[.int 1], []⟩, .empty⟩] (.new .default)).state)
    let steps : List (String × Event) :=
      [("A", .effect .adsr 3 false), ("B", .note 0 24), ("A", .effect .adsr 5 false),
        ("pattern", .effect .adsr 3 false), ("B", .effect .adsr 3 true), ("B", .tupletEnd 3),
        ("A", .cutoff ⟨.eighths, false, 9⟩), ("A", .note 4 24), ("A", .effect .adsr 3 true)]
    let run := Song.attemptSteps steps start
    let alone := fun c => Song.attemptSteps (steps.filter (·.1 == c)) start
    run.1.map (fun r => (r.channel, r.outcome, r.references .adsr 3)) =
        [("A", .ok (), 1), ("B", .ok (), 0), ("A", .error (.undefinedMacro .adsr 5), 0),
          ("pattern", .ok (), 1), ("B", .ok (), 1), ("B", .error (.tupletNotOpen "B"), 0),
          ("A", .ok (), 0), ("A", .ok (), 0), ("A", .error (.negativeLength "A" 81 (-9)), 1)] ∧
      run.1.filter (·.channel == "A") = (alone "A").1 ∧
      Song.compiled run.2 "B" = Song.compiled (alone "B").2 "B" ∧
      (start.1.names.map fun c => (alone c).2.2.refCount .adsr 3).sum = 4 := by
  have h := @attemptSteps_independent .c64 ⟨50, false⟩ 120
    [⟨.adsr, some 3, ⟨[.int 1], []⟩, .empty⟩] .default rfl
  refine ⟨by decide +kernel, ((h _).1 "A").1, ((h _).1 "B").2.2.2.1, ?_⟩
  rw [← (h _).2.2]
  decide +kernel

end Chiptune
