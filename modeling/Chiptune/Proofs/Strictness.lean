import Chiptune.Proofs.Dialogue
import Chiptune.Proofs.Stages
import Chiptune.Proofs.Synchrony

/-!
# Warnings as errors

A compilation can treat warnings as errors.  Apart from that it is the compilation that it would be
otherwise: it stops at the first warning that the other one records, and if there is none then the
two end in the same way.

The two compilations are compared step by step.  They run side by side until a warning is reported;
then the strict one stops, and the other one goes on and only adds warnings.

## Main definitions

* `InSession` — states with a session in them, which can be made strict.
* `Mirrors` — the result of a strict run beside that of a tolerant one.
* `Promotes` — an operation that is the same in both runs but for warnings.

## Main results

* `Mirrors.next` — runs that mirror each other still do after one more operation.
* `Script.compileIn_promotes` — a compilation stops only at warnings because of being strict.
* `compile_strict` — a strict compilation is a tolerant one with a check.
-/

namespace Chiptune

/-! ### Strict sessions -/

namespace Session

/-- The session, but warnings are not tolerated in it. -/
def strictly (s : Session) : Session where
  options := { s.options with warningsAsErrors := true }
  macros := s.macros
  journal := { s.journal with strict := true }

theorem grantAll_strictly (s : Session) (qs : List Appeal) :
    s.strictly.grantAll qs = (s.grantAll qs).strictly := by
  induction qs generalizing s with
  | nil => rfl
  | cons q qs ih =>
    have hq : q.grant s.strictly = (q.grant s).strictly := by cases q <;> rfl
    rw [grantAll_cons, grantAll_cons, hq, ih]

end Session

/-- States with a session in them. -/
class InSession (σ : Type) where
  /-- The session. -/
  session : σ → Session
  /-- The state, but warnings are not tolerated in its session. -/
  strictly : σ → σ

open InSession (session strictly)

instance : InSession Session := ⟨id, Session.strictly⟩

instance : InSession Desk := ⟨Desk.session, fun d => ⟨d.channel, d.session.strictly⟩⟩

instance {α : Type} : InSession (α × Session) := ⟨Prod.snd, fun p => (p.1, p.2.strictly)⟩

/-! ### Runs beside each other -/

section Mirrors

variable {σ τ α β : Type} [InSession σ] [InSession τ]

/-- The result of a strict run, where the other run ended with `r` and recorded `ws`. -/
def StrictResult (r r' : EStateM.Result Error σ α) : List Warning → Prop
  | [] => r' = r.mapState strictly
  | w :: _ => ∃ x, r' = .error (.promoted w) x

/-- A tolerant run ended with `r` and added to the warnings `before`, and a strict run beside it
ended with `r'`. -/
def Mirrors (before : List Warning) (r r' : EStateM.Result Error σ α) : Prop :=
  (session r.state).journal.strict = false ∧
    ∃ ws, (session r.state).warnings = before ++ ws ∧ StrictResult r r' ws

theorem Mirrors.quiet {r r' : EStateM.Result Error σ α} {x : σ}
    (htolerant : (session x).journal.strict = false)
    (hsession : (session r.state).journal = (session x).journal)
    (hr : r' = r.mapState strictly) : Mirrors (session x).warnings r r' := by
  refine ⟨by rw [hsession, htolerant], [], ?_, hr⟩
  rw [List.append_nil, Session.warnings, Session.warnings, hsession]

/-- **Runs mirror each other until a warning is recorded.**  After that the strict run is over, and
the other one only adds warnings. -/
theorem Mirrors.next {before : List Warning} {r r' : EStateM.Result Error σ α} {leave : σ → τ}
    {k : α → σ → EStateM.Result Error τ β}
    (hleave : ∀ x, session (leave x) = session x)
    (hstrictly : ∀ x, leave (strictly x) = strictly (leave x)) (h : Mirrors before r r')
    (hk : ∀ a x, r = .ok a x → (session x).journal.strict = false →
      Mirrors (session x).warnings (k a x) (k a (strictly x))) :
    Mirrors before (r.next leave k) (r'.next leave k) := by
  obtain ⟨htolerant, ws, hws, hstrict⟩ := h
  cases r with
  | error e x =>
    change (session x).warnings = _ at hws
    refine ⟨(congrArg (·.journal.strict) (hleave x)).trans htolerant, ws, ?_, ?_⟩
    · change (session (leave x)).warnings = _
      rw [hleave, hws]
    · cases ws with
      | nil =>
        have hr : r' = .error e (strictly x) := hstrict
        rw [hr]
        exact congrArg _ (hstrictly x)
      | cons w ws =>
        obtain ⟨y, rfl⟩ := hstrict
        exact ⟨leave y, rfl⟩
  | ok a x =>
    change (session x).warnings = _ at hws
    obtain ⟨htolerant', ws', hws', hstrict'⟩ := hk a x rfl htolerant
    refine ⟨htolerant', ws ++ ws', by rw [← List.append_assoc, ← hws]; exact hws', ?_⟩
    cases ws with
    | nil =>
      have hr : r' = .ok a (strictly x) := hstrict
      rw [hr]
      exact hstrict'
    | cons w ws =>
      obtain ⟨y, rfl⟩ := hstrict
      exact ⟨leave y, rfl⟩

theorem Mirrors.mapState {before : List Warning} {r r' : EStateM.Result Error σ α} {f : σ → τ}
    (hf : ∀ x, session (f x) = session x) (hstrictly : ∀ x, f (strictly x) = strictly (f x))
    (h : Mirrors before r r') : Mirrors before (r.mapState f) (r'.mapState f) := by
  rw [r.mapState_eq_next, r'.mapState_eq_next]
  refine h.next hf hstrictly fun a x _ htolerant => ?_
  rw [hstrictly, ← hf x]
  refine .quiet ?_ rfl rfl
  rw [hf, htolerant]

/-- An operation does the same in a strict run, but that it stops at warnings. -/
def Promotes (act : EStateM Error σ α) : Prop :=
  ∀ x, (session x).journal.strict = false →
    Mirrors (session x).warnings (act x) (act (strictly x))

namespace Promotes

theorem pure (a : α) : Promotes (Pure.pure a : EStateM Error σ α) :=
  fun _ htolerant => .quiet htolerant rfl rfl

theorem bind {x : EStateM Error σ α} {f : α → EStateM Error σ β} (hx : Promotes x)
    (hf : ∀ a, Promotes (f a)) : Promotes (x >>= f) := by
  intro s hs
  rw [EStateM.Result.bind_eq_next, EStateM.Result.bind_eq_next]
  exact (hx s hs).next (fun _ => rfl) (fun _ => rfl) fun a y _ hy => hf a y hy

theorem forM {γ : Type} {f : γ → EStateM Error σ Unit} (hf : ∀ c, Promotes (f c)) (cs : List γ) :
    Promotes (cs.forM f) := by
  induction cs with
  | nil => exact pure ()
  | cons c cs ih => exact bind (hf c) fun _ => ih

end Promotes

end Mirrors

/-! ### Channels -/

/-- A dialogue is the same with a strict session until it comes to a warning. -/
theorem Encoding.ConsultsAt.promotes {α : Type} {act : Encoding α}
    {refs : Channel → List (Effect × Nat)} (h : ∀ ch, act.ConsultsAt ch (refs ch)) :
    Promotes act := by
  intro d hd
  obtain ⟨ch, s⟩ := d
  obtain ⟨t, -, hrun⟩ := h ch
  change s.journal.strict = false at hd
  change Mirrors s.warnings (act ⟨ch, s⟩) (act ⟨ch, s.strictly⟩)
  rw [hrun, hrun, t.run_tolerant hd]
  have hstrict := t.run_strict (s := s.strictly) rfl
  have hmissing : s.strictly.missing? = s.missing? := rfl
  rw [hmissing, Session.grantAll_strictly] at hstrict
  have hstate (c : Channel) (s' : Session) (o : Except Error α) :
      (Dialogue.result c s' o).state = ⟨c, s'⟩ := by cases o <;> rfl
  refine ⟨?_, (t.settle s.missing?).1.filterMap Appeal.warning?, ?_, ?_⟩
  · rw [hstate]
    exact (s.strict_grantAll _).trans hd
  · rw [hstate]
    exact s.warnings_grantAll _
  · generalize (t.settle s.missing?).1.filterMap Appeal.warning? = ws at hstrict ⊢
    cases ws with
    | nil =>
      refine hstrict.trans ?_
      cases (t.settle s.missing?).2.2 <;> rfl
    | cons w ws => exact hstrict

theorem Event.apply_promotes (e : Event) : Promotes e.apply :=
  Encoding.ConsultsAt.promotes e.apply_consults

theorem applyEvents_promotes (events : List Event) : Promotes (applyEvents events) :=
  .forM Event.apply_promotes events

theorem Encoding.finish_promotes : Promotes Encoding.finish :=
  Encoding.ConsultsAt.promotes finish_consults

/-! ### Sessions -/

namespace Session

theorem warn_promotes (w : Warning) : Promotes (warn w) := by
  intro s hs
  rw [warn_apply, warn_apply]
  change s.journal.strict = false at hs
  rw [hs]
  exact ⟨hs, [w], s.warnings_report [w], s.strictly, rfl⟩

/-- What is done with the macros does not depend on the journal. -/
theorem onMacros_promotes {α : Type} (e : Effect) (act : EStateM Error Registry α) :
    Promotes (onMacros e act) := by
  intro s hs
  change Mirrors s.warnings (onMacros e act s) (onMacros e act s.strictly)
  have hmacros : s.strictly.macros = s.macros := rfl
  unfold onMacros
  rw [hmacros]
  cases MacroBank.on e act s.macros with
  | ok a b => exact .quiet (x := s) hs rfl rfl
  | error err b => exact .quiet (x := s) hs rfl rfl

theorem defineMacro_promotes (d : MacroDef) : Promotes (defineMacro d) :=
  onMacros_promotes d.effect _

theorem defineMacros_promotes (ds : List MacroDef) : Promotes (defineMacros ds) :=
  .forM defineMacro_promotes ds

end Session

theorem Platform.packMacros_promotes (p : Platform) : Promotes p.packMacros := by
  refine Promotes.forM (fun packing => ?_) p.packings
  obtain ⟨effect, form⟩ := packing
  exact Session.onMacros_promotes effect (Registry.pack form)

/-! ### Songs -/

namespace Song

variable {α : Type}

theorem onSession_promotes {act : EStateM Error Session α} (h : Promotes act) :
    Promotes (Song.onSession act) := by
  rintro ⟨song, s⟩ hs
  change Mirrors s.warnings (onSession act (song, s)) (onSession act (song, s.strictly))
  rw [onSession_eq, onSession_eq]
  exact (h s hs).mapState (fun _ => rfl) fun _ => rfl

theorem onPattern_promotes {act : Encoding α} (h : Promotes act) : Promotes (onPattern act) := by
  rintro ⟨song, s⟩ hs
  change Mirrors s.warnings (onPattern act (song, s)) (onPattern act (song, s.strictly))
  rw [onPattern_eq, onPattern_eq]
  exact (h ⟨song.pattern, s⟩ hs).mapState (fun _ => rfl) fun _ => rfl

theorem onEach_mirrors {act : Encoding Unit} (h : Promotes act) : ∀ (chs : List Channel)
    {s : Session}, s.journal.strict = false →
      Mirrors s.warnings (onEach act s chs) (onEach act s.strictly chs) := by
  intro chs
  induction chs with
  | nil =>
    intro s hs
    exact .quiet (x := (([] : List Channel), s)) hs rfl rfl
  | cons ch chs ih =>
    intro s hs
    rw [onEach_cons, onEach_cons]
    refine (h ⟨ch, s⟩ hs).next (fun _ => rfl) (fun _ => rfl) fun _ d _ hd => ?_
    exact (ih hd).mapState (fun _ => rfl) fun _ => rfl

theorem onVoices_promotes {act : Encoding Unit} (h : Promotes act) : Promotes (onVoices act) := by
  rintro ⟨song, s⟩ hs
  change Mirrors s.warnings (onVoices act (song, s)) (onVoices act (song, s.strictly))
  rw [onVoices_eq, onVoices_eq]
  exact (onEach_mirrors h song.channels hs).mapState (fun _ => rfl) fun _ => rfl

theorem reportLengths_promotes : Promotes reportLengths := by
  rintro ⟨song, s⟩ hs
  -- the channels that are reported depend on the song alone
  refine Promotes.forM (f := fun ch => if ch.ticks = song.longest then Pure.pure () else
    onSession (Session.warn (.lengthMismatch ch.name ch.ticks song.longest))) (fun ch => ?_)
    (song.channels.filter (·.hasNotes)) (song, s) hs
  split
  · exact .pure ()
  · exact onSession_promotes (Session.warn_promotes _)

theorem finish_promotes : Promotes finish :=
  .bind (onVoices_promotes Encoding.finish_promotes) fun _ =>
    .bind (onPattern_promotes Encoding.finish_promotes) fun _ => reportLengths_promotes

end Song

theorem enterChannels_promotes (target : Platform) (channels : List (String × List Event)) :
    Promotes (enterChannels target channels) := by
  refine .forM (fun c => ?_) channels
  obtain ⟨name, events⟩ := c
  rintro ⟨song, s⟩ hs
  have hstrictly : strictly (song, s) = (song, s.strictly) := rfl
  rw [hstrictly]
  simp only [song.onChannel?_eq]
  cases song.named? name with
  | none => exact .quiet (x := (song, s)) hs rfl rfl
  | some ch =>
    exact (applyEvents_promotes events ⟨ch, s⟩ hs).mapState (fun _ => rfl) fun _ => rfl

theorem composeSong_promotes (target : Platform) (script : Script) :
    Promotes (composeSong target script) :=
  .bind (enterChannels_promotes target script.channels.toList) fun _ =>
    .bind (Song.onPattern_promotes (applyEvents_promotes script.pattern)) fun _ =>
      .bind Song.finish_promotes fun _ => Song.onSession_promotes target.packMacros_promotes

/-! ### Compilations -/

namespace Script

/-- **A compilation** depends on being strict only in that it stops at warnings: neither the
platform nor the clock nor the output depends on it. -/
theorem compileIn_promotes (script : Script) : Promotes script.compileIn := by
  intro s hs
  rw [compileIn_eq, compileIn_eq]
  by_cases htempo : script.tempo = 0
  · rw [if_pos htempo, if_pos htempo]
    exact .quiet hs rfl rfl
  · rw [if_neg htempo, if_neg htempo]
    refine (Session.defineMacros_promotes script.macros s hs).next (fun _ => rfl) (fun _ => rfl)
      fun _ s₁ _ hs₁ => ?_
    refine (composeSong_promotes _ script (_, s₁) hs₁).next (fun _ => rfl) (fun _ => rfl)
      fun _ p _ hp => ?_
    have hbuild : Output.build (script.platform s.options) (strictly p).1 (strictly p).2 =
        Output.build (script.platform s.options) p.1 p.2 := rfl
    rw [hbuild]
    cases Output.build (script.platform s.options) p.1 p.2 with
    | error e => exact .quiet (x := p.2) hp rfl rfl
    | ok output => exact .quiet (x := p.2) hp rfl rfl

/-- The script, with its own switch for warnings as errors set. -/
def withStrictness (script : Script) (b : Bool) : Script :=
  { script with options := { script.options with warningsAsErrors := b } }

/-- The warnings that a compilation records, whether it succeeds or not. -/
def recorded (script : Script) (options : Options) : List Warning :=
  (script.compileIn (.new (script.options.merge options))).state.warnings

/-- The script's own switches matter only as part of the session. -/
theorem compileIn_withStrictness (script : Script) (b : Bool) :
    (script.withStrictness b).compileIn = script.compileIn := rfl

theorem warnings_of_compile_eq_ok {script : Script} {options : Options} {c : Compilation}
    (h : script.compile options = .ok c) : c.warnings.toList = script.recorded options := by
  unfold compile at h
  unfold recorded
  cases hr : script.compileIn (.new (script.options.merge options)) with
  | error e s =>
    rw [hr] at h
    cases h
  | ok output s =>
    rw [hr] at h
    cases h
    rfl

end Script

/-- The options, with the switch for warnings as errors set. -/
def Options.withStrictness (o : Options) (b : Bool) : Options := { o with warningsAsErrors := b }

/-- **A strict compilation is a tolerant one with a check.**  Warnings are errors if the script or
the options say so.  The compilation then stops at the first warning that is recorded otherwise,
even if an error comes later, and without warnings it ends in the same way.  So it succeeds exactly
if the other one does and has nothing to report. -/
theorem compile_strict (script : Script) (options : Options) {a b : Bool} (hab : (a || b) = true) :
    let tolerant := (script.withStrictness false).compile (options.withStrictness false)
    let recorded := (script.withStrictness false).recorded (options.withStrictness false)
    let strict := (script.withStrictness a).compile (options.withStrictness b)
    (∀ c, tolerant = .ok c → c.warnings.toList = recorded) ∧
      (recorded = [] → strict = tolerant) ∧
      (∀ w ws, recorded = w :: ws → strict = .error (.promoted w)) ∧
      ∀ c, strict = .ok c ↔ tolerant = .ok c ∧ c.warnings = #[] := by
  intro tolerant recorded strict
  have hwarnings : ∀ c, tolerant = .ok c → c.warnings.toList = recorded := fun c hc =>
    Script.warnings_of_compile_eq_ok hc
  have hmirrors := script.compileIn_promotes
    (.new ((script.withStrictness false).options.merge (options.withStrictness false))) rfl
  have hsession : strictly (Session.new
        ((script.withStrictness false).options.merge (options.withStrictness false))) =
      .new ((script.withStrictness a).options.merge (options.withStrictness b)) := by
    simp [strictly, Session.strictly, Session.new, Journal.new, Options.merge,
      Script.withStrictness, Options.withStrictness, hab]
  rw [hsession] at hmirrors
  obtain ⟨-, ws, hws, hresult⟩ := hmirrors
  have hrecorded : recorded = ws := hws
  have hquiet : recorded = [] → strict = tolerant := by
    rintro hnil
    rw [← hrecorded, hnil] at hresult
    simp only [strict, tolerant, Script.compile, Script.compileIn_withStrictness]
    rw [hresult]
    cases script.compileIn _ <;> rfl
  have hpromoted : ∀ w ws, recorded = w :: ws → strict = .error (.promoted w) := by
    intro w ws hcons
    rw [← hrecorded, hcons] at hresult
    obtain ⟨s, hs⟩ := hresult
    simp only [strict, Script.compile, Script.compileIn_withStrictness]
    rw [hs]
  refine ⟨hwarnings, hquiet, hpromoted, fun c => ?_⟩
  cases hc : recorded with
  | nil =>
    rw [hquiet hc]
    refine ⟨fun h => ⟨h, ?_⟩, fun h => h.1⟩
    rw [← Array.toList_eq_nil_iff, hwarnings c h, hc]
  | cons w ws =>
    rw [hpromoted w ws hc]
    constructor
    · intro h
      cases h
    · rintro ⟨h, hempty⟩
      -- the other compilation succeeds with a warning
      have hcons := hwarnings c h
      rw [hempty, hc] at hcons
      cases hcons

/-- The tie is reported first, and the tuplet that is left open would stop the compilation later. -/
theorem compile_strict_tie :
    let script := { Script.empty with pattern := [.tupletStart, .tie 3, .rest 1] }
    (script.withStrictness false).recorded (Options.default.withStrictness false) =
        [.tieInTuplet "pattern"] ∧
      (script.withStrictness true).compile (Options.default.withStrictness false) =
        .error (.promoted (.tieInTuplet "pattern")) := by
  intro script
  have hrecorded : (script.withStrictness false).recorded (Options.default.withStrictness false) =
      [.tieInTuplet "pattern"] := by decide +kernel
  have hstrict := compile_strict script .default (a := true) (b := false) rfl
  exact ⟨hrecorded, hstrict.2.2.1 _ _ hrecorded⟩

end Chiptune
