import Chiptune.Proofs.Operation

/-!
# What a channel asks of its session

Operations on a channel share a session with those on the other channels.  They use it for two
things only: they report warnings, and they count references to macros.  Either appeal can be
turned down, a warning where warnings are not tolerated and a reference where there is no such
macro, and then the operation stops at once.

So what an operation does to a channel is a dialogue with the session: a list of appeals, and an
outcome in case all of them are granted.  The dialogue depends on the channel alone.

## Main definitions

* `Appeal`, `Appeal.refusal?`, `Appeal.grant` — what can be asked, and how a session answers.
* `Dialogue`, `Dialogue.run` — an operation by its appeals.
* `Dialogue.settle` — how a dialogue ends where warnings are tolerated.
* `Encoding.ConsultsAt` — an operation is a dialogue.

## Main results

* `Dialogue.run_tolerant`, `Dialogue.run_strict` — a dialogue where warnings are tolerated and where
  they are not.
* `Event.apply_consults`, `Encoding.finish_consults` — events and the end of a channel are
  dialogues.
-/

namespace Chiptune

/-! ### Sessions -/

namespace MacroBank

@[simp] theorem set_get (b : MacroBank) (e : Effect) : b.set e (b.get e) = b := by
  simp [set, get]

end MacroBank

namespace Session

/-- The error for a reference to a macro, if there is no such macro. -/
def missing? (s : Session) (e : Effect) (key : Nat) : Option Error :=
  if (s.macros.get e).entries.contains key then none
  else some (.undefinedMacro (s.macros.get e).effect key)

/-- The session with one more reference counted. -/
def refer (s : Session) (e : Effect) (key : Nat) : Session :=
  let r := s.macros.get e
  let entries := r.entries.modify key fun m => { m with refCount := m.refCount + 1 }
  { s with macros := s.macros.set e { r with entries := entries } }

/-- How many commands select the macro of an effect under a key. -/
def refCount (s : Session) (e : Effect) (key : Nat) : Nat := (s.macros.get e).refCount key

theorem onMacros_addRef (s : Session) (e : Effect) (key : Nat) :
    onMacros e (Registry.addRef key) s =
      match s.missing? e key with
      | none => .ok () (s.refer e key)
      | some err => .error err s := by
  simp only [onMacros, MacroBank.on, Registry.addRef, Registry.update, missing?]
  cases (s.macros.get e).entries.contains key with
  | true => rfl
  | false => simp

theorem warn_apply (s : Session) (w : Warning) :
    warn w s = if s.journal.strict then .error (.promoted w) s else .ok () (s.report [w]) := by
  simp only [warn, Journal.warn]
  cases hs : s.journal.strict <;> simp [report, hs]

theorem get_refer (s : Session) (e e' : Effect) (key : Nat) :
    (s.refer e key).macros.get e' =
      { s.macros.get e' with
        entries :=
          if e = e' then
            (s.macros.get e').entries.modify key fun m => { m with refCount := m.refCount + 1 }
          else (s.macros.get e').entries } := by
  by_cases h : e = e'
  · subst h
    simp [refer]
  · simp [refer, h]

@[simp] theorem missing?_refer (s : Session) (e : Effect) (key : Nat) :
    (s.refer e key).missing? = s.missing? := by
  funext e' key'
  simp only [missing?, get_refer]
  by_cases h : e = e' <;> simp [h]

@[simp] theorem missing?_report (s : Session) (ws : List Warning) :
    (s.report ws).missing? = s.missing? := rfl

@[simp] theorem refCount_report (s : Session) (ws : List Warning) :
    (s.report ws).refCount = s.refCount := rfl

/-- A reference is counted where it belongs, if there is such a macro. -/
theorem refCount_refer (s : Session) (e e' : Effect) (key key' : Nat) :
    (s.refer e key).refCount e' key' =
      s.refCount e' key' +
        if (e = e' ∧ key = key') ∧ s.missing? e' key' = none then 1 else 0 := by
  simp only [refCount, Registry.refCount, Registry.get?, get_refer, missing?]
  by_cases h : e = e'
  · rw [if_pos h, Keyed.find?_modify]
    by_cases hk : key = key'
    · cases hm : (s.macros.get e').entries.find? key' <;> simp [h, hk, hm, Keyed.contains]
    · simp [hk]
  · simp [h]

end Session

/-! ### Appeals -/

/-- What a channel can ask of its session. -/
inductive Appeal where
  /-- A warning is to be reported. -/
  | warn (w : Warning)
  /-- A reference to a macro is to be counted. -/
  | refer (e : Effect) (key : Nat)
  deriving DecidableEq

namespace Appeal

/-- Why a session turns an appeal down, if it does. -/
def refusal? (s : Session) : Appeal → Option Error
  | warn w => if s.journal.strict then some (.promoted w) else none
  | refer e key => s.missing? e key

/-- The session after an appeal was granted. -/
def grant (s : Session) : Appeal → Session
  | warn w => s.report [w]
  | refer e key => s.refer e key

/-- The warning that is to be reported. -/
def warning? : Appeal → Option Warning
  | warn w => some w
  | refer _ _ => none

/-- The macro to which a reference is to be counted. -/
def reference? : Appeal → Option (Effect × Nat)
  | warn _ => none
  | refer e key => some (e, key)

end Appeal

namespace Session

/-- The session after some appeals were granted. -/
def grantAll (s : Session) (qs : List Appeal) : Session := qs.foldl Appeal.grant s

@[simp] theorem grantAll_nil (s : Session) : s.grantAll [] = s := rfl

@[simp] theorem grantAll_cons (s : Session) (q : Appeal) (qs : List Appeal) :
    s.grantAll (q :: qs) = (q.grant s).grantAll qs := rfl

@[simp] theorem missing?_grant (s : Session) (q : Appeal) : (q.grant s).missing? = s.missing? := by
  cases q with
  | warn w => exact missing?_report s [w]
  | refer e key => exact missing?_refer s e key

@[simp] theorem strict_grant (s : Session) (q : Appeal) :
    (q.grant s).journal.strict = s.journal.strict := by
  cases q <;> rfl

@[simp] theorem missing?_grantAll (s : Session) (qs : List Appeal) :
    (s.grantAll qs).missing? = s.missing? := by
  induction qs generalizing s with
  | nil => rfl
  | cons q qs ih => rw [grantAll_cons, ih, missing?_grant]

@[simp] theorem strict_grantAll (s : Session) (qs : List Appeal) :
    (s.grantAll qs).journal.strict = s.journal.strict := by
  induction qs generalizing s with
  | nil => rfl
  | cons q qs ih => rw [grantAll_cons, ih, strict_grant]

/-- The journal has the warnings that were reported, in order. -/
theorem warnings_grantAll (s : Session) (qs : List Appeal) :
    (s.grantAll qs).journal.warnings.toList =
      s.journal.warnings.toList ++ qs.filterMap Appeal.warning? := by
  induction qs generalizing s with
  | nil => simp
  | cons q qs ih =>
    rw [grantAll_cons, ih]
    cases q with
    | warn w => simp [Appeal.grant, Appeal.warning?]
    | refer e key => rfl

/-- Every reference to a macro that is there is counted once. -/
theorem refCount_grantAll (s : Session) (qs : List Appeal) (e : Effect) (key : Nat) :
    (s.grantAll qs).refCount e key =
      s.refCount e key + if s.missing? e key = none then qs.count (.refer e key) else 0 := by
  induction qs generalizing s with
  | nil => simp
  | cons q qs ih =>
    rw [grantAll_cons, ih, missing?_grant]
    cases q with
    | warn w => simp [Appeal.grant]
    | refer e' key' =>
      rw [Appeal.grant, refCount_refer, List.count_cons]
      by_cases hm : s.missing? e key = none
      · by_cases hq : e' = e ∧ key' = key
        · simp [hm, hq]
          omega
        · simp [hm, hq]
      · simp [hm]

end Session

/-! ### Dialogues -/

/-- An operation by its appeals.  With each appeal there is the channel as it is left if the
appeal is turned down. -/
inductive Dialogue (α : Type) where
  /-- The operation succeeds. -/
  | done (a : α) (ch : Channel)
  /-- The operation fails. -/
  | fail (err : Error) (ch : Channel)
  /-- An appeal is made, and the operation goes on if it is granted. -/
  | ask (q : Appeal) (ch : Channel) (next : Dialogue α)

namespace Dialogue

variable {α β : Type}

/-- A dialogue with a session. -/
def run : Dialogue α → Session → EStateM.Result Error Desk α
  | done a ch, s => .ok a ⟨ch, s⟩
  | fail err ch, s => .error err ⟨ch, s⟩
  | ask q ch next, s =>
    match q.refusal? s with
    | some err => .error err ⟨ch, s⟩
    | none => next.run (q.grant s)

/-- All appeals, whether they are granted or not. -/
def appeals : Dialogue α → List Appeal
  | done _ _ | fail _ _ => []
  | ask q _ next => q :: next.appeals

/-- A dialogue, and another one after it if it succeeds. -/
def bind (t : Dialogue α) (f : α → Channel → Dialogue β) : Dialogue β :=
  match t with
  | done a ch => f a ch
  | fail err ch => .fail err ch
  | ask q ch next => .ask q ch (next.bind f)

theorem run_bind (t : Dialogue α) (f : α → Channel → Dialogue β) (s : Session) :
    (t.bind f).run s =
      match t.run s with
      | .ok a d => (f a d.channel).run d.session
      | .error err d => .error err d := by
  induction t generalizing s with
  | done a ch => rfl
  | fail err ch => rfl
  | ask q ch next ih =>
    simp only [bind, run]
    cases q.refusal? s with
    | some err => rfl
    | none => exact ih (q.grant s)

theorem references_bind (t : Dialogue α) {f : α → Channel → Dialogue β}
    (hf : ∀ a ch, (f a ch).appeals.filterMap Appeal.reference? = []) :
    (t.bind f).appeals.filterMap Appeal.reference? =
      t.appeals.filterMap Appeal.reference? := by
  induction t with
  | done a ch => exact hf a ch
  | fail err ch => rfl
  | ask q ch next ih =>
    simp only [bind, appeals, List.filterMap_cons]
    rw [ih]

/-- A dialogue that succeeds had all its appeals granted. -/
theorem run_eq_ok {t : Dialogue α} {s : Session} {a : α} {d : Desk} (h : t.run s = .ok a d) :
    d.session = s.grantAll t.appeals ∧
      ∀ e key, .refer e key ∈ t.appeals → s.missing? e key = none := by
  induction t generalizing s with
  | done b ch =>
    cases h
    exact ⟨rfl, by simp [appeals]⟩
  | fail err ch => cases h
  | ask q ch next ih =>
    simp only [run] at h
    cases hq : q.refusal? s with
    | some err => simp [hq] at h
    | none =>
      rw [hq] at h
      obtain ⟨hsession, hrefs⟩ := ih h
      refine ⟨hsession, fun e key hmem => ?_⟩
      rcases List.mem_cons.mp hmem with rfl | hmem
      · exact hq
      · rw [← Session.missing?_grant s q]
        exact hrefs e key hmem

/-- How a dialogue ends with a session that tolerates warnings: the appeals that are granted, the
channel that is left and the outcome. -/
def settle (missing? : Effect → Nat → Option Error) :
    Dialogue α → List Appeal × Channel × Except Error α
  | done a ch => ([], ch, .ok a)
  | fail err ch => ([], ch, .error err)
  | ask (.warn w) _ next => (.warn w :: (next.settle missing?).1, (next.settle missing?).2)
  | ask (.refer e key) ch next =>
    match missing? e key with
    | some err => ([], ch, .error err)
    | none => (.refer e key :: (next.settle missing?).1, (next.settle missing?).2)

/-- The outcome of a dialogue, with the channel and the session that it leaves. -/
def result (ch : Channel) (s : Session) : Except Error α → EStateM.Result Error Desk α
  | .ok a => .ok a ⟨ch, s⟩
  | .error err => .error err ⟨ch, s⟩

/-- **A dialogue with a session that tolerates warnings** depends on the session only by the macros
that are missing. -/
theorem run_tolerant (t : Dialogue α) {s : Session} (hs : s.journal.strict = false) :
    t.run s =
      result (t.settle s.missing?).2.1 (s.grantAll (t.settle s.missing?).1)
        (t.settle s.missing?).2.2 := by
  induction t generalizing s with
  | done a ch => rfl
  | fail err ch => rfl
  | ask q ch next ih =>
    have hnext := ih (s := q.grant s) (by rw [Session.strict_grant, hs])
    rw [Session.missing?_grant] at hnext
    cases q with
    | warn w =>
      simp only [run, Appeal.refusal?, hs, Bool.false_eq_true, if_false]
      exact hnext
    | refer e key =>
      simp only [run, Appeal.refusal?, settle]
      cases hm : s.missing? e key with
      | some err => rfl
      | none => exact hnext

/-- **A dialogue with a strict session** ends as it would elsewhere if no warning is reported
there, and otherwise with the first one. -/
theorem run_strict (t : Dialogue α) {s : Session} (hs : s.journal.strict = true) :
    match (t.settle s.missing?).1.filterMap Appeal.warning? with
    | [] =>
      t.run s =
        result (t.settle s.missing?).2.1 (s.grantAll (t.settle s.missing?).1)
          (t.settle s.missing?).2.2
    | w :: _ => ∃ d, t.run s = .error (.promoted w) d := by
  induction t generalizing s with
  | done a ch => rfl
  | fail err ch => rfl
  | ask q ch next ih =>
    cases q with
    | warn w => exact ⟨⟨ch, s⟩, by simp only [run, Appeal.refusal?, hs, if_true]⟩
    | refer e key =>
      have hnext := ih (s := s.refer e key) hs
      rw [Session.missing?_refer] at hnext
      simp only [run, Appeal.refusal?, settle]
      cases hm : s.missing? e key with
      | some err => rfl
      | none => exact hnext

end Dialogue

/-! ### Operations -/

namespace Encoding

variable {α β : Type}

/-- At the channel `ch` the operation is a dialogue, in which the references `refs` are to be
counted. -/
def ConsultsAt (act : Encoding α) (ch : Channel) (refs : List (Effect × Nat)) : Prop :=
  ∃ t : Dialogue α, t.appeals.filterMap Appeal.reference? = refs ∧
    ∀ s, act ⟨ch, s⟩ = t.run s

namespace ConsultsAt

variable {ch : Channel} {refs : List (Effect × Nat)}

theorem pure (a : α) : ConsultsAt (Pure.pure a) ch [] :=
  ⟨.done a ch, rfl, fun _ => rfl⟩

theorem throw (err : Error) : ConsultsAt (MonadExcept.throw err : Encoding α) ch [] :=
  ⟨.fail err ch, rfl, fun _ => rfl⟩

theorem modifyChannel (f : Channel → Channel) : (Encoding.modifyChannel f).ConsultsAt ch [] :=
  ⟨.done () (f ch), rfl, fun _ => rfl⟩

theorem warn (w : Warning) : (Encoding.warn w).ConsultsAt ch [] := by
  refine ⟨.ask (.warn w) ch (.done () ch), rfl, fun s => ?_⟩
  simp only [Encoding.warn, onSession, Session.warn_apply, Dialogue.run, Appeal.refusal?]
  cases s.journal.strict <;> rfl

theorem addRef (e : Effect) (key : Nat) :
    (onSession (Session.onMacros e (Registry.addRef key))).ConsultsAt ch [(e, key)] := by
  refine ⟨.ask (.refer e key) ch (.done () ch), rfl, fun s => ?_⟩
  simp only [onSession, Session.onMacros_addRef, Dialogue.run, Appeal.refusal?]
  cases s.missing? e key <;> rfl

/-- Two operations one after the other are one dialogue. -/
theorem bind {x : Encoding α} {f : α → Encoding β} (hx : x.ConsultsAt ch refs)
    (hf : ∀ a ch', (f a).ConsultsAt ch' []) : (x >>= f).ConsultsAt ch refs := by
  obtain ⟨t, hrefs, hrun⟩ := hx
  choose g hg using hf
  refine ⟨t.bind g, ?_, fun s => ?_⟩
  · rw [t.references_bind fun a ch' => (hg a ch').1]
    exact hrefs
  · rw [bind_apply, hrun, t.run_bind]
    cases t.run s with
    | error err d => rfl
    | ok a d => exact (hg a d.channel).2 d.session

/-- An operation that looks at the channel first. -/
theorem channel_bind {f : Channel → Encoding β} (h : (f ch).ConsultsAt ch refs) :
    (channel >>= f).ConsultsAt ch refs := by
  obtain ⟨t, hrefs, hrun⟩ := h
  exact ⟨t, hrefs, hrun⟩

/-- An operation that changes the channel first. -/
theorem modifyChannel_bind {g : Channel → Channel} {f : Unit → Encoding β}
    (h : (f ()).ConsultsAt (g ch) refs) : (Encoding.modifyChannel g >>= f).ConsultsAt ch refs := by
  obtain ⟨t, hrefs, hrun⟩ := h
  exact ⟨t, hrefs, hrun⟩

end ConsultsAt

theorem remark_consults (name : String) (length : NoteLength) (ch : Channel) :
    (remark name length).ConsultsAt ch [] := by
  unfold remark
  split
  · exact .pure ()
  · exact .warn _
  · exact .warn _

theorem noteLength_consults (ticks : Nat) (ch : Channel) : (noteLength ticks).ConsultsAt ch [] := by
  refine .channel_bind ?_
  split
  · exact .throw _
  · exact .throw _
  · exact .bind (remark_consults _ _ ch) fun _ _ => .pure _

theorem silenceLength_consults (ticks : Nat) (ch : Channel) :
    (silenceLength ticks).ConsultsAt ch [] := by
  refine .channel_bind ?_
  split
  · exact .throw _
  · exact .pure _

theorem writePending_consults (p : PendingSound) (ch : Channel) :
    (writePending p).ConsultsAt ch [] := by
  unfold writePending
  split
  · exact .bind (noteLength_consults _ ch) fun _ _ => .modifyChannel _
  · exact .bind (silenceLength_consults _ ch) fun _ _ => .modifyChannel _

theorem flush_consults (ch : Channel) : flush.ConsultsAt ch [] := by
  refine .channel_bind ?_
  split
  · exact .pure ()
  · exact .modifyChannel_bind (writePending_consults _ _)

/-- Most operations write the sound that is waiting and then change the channel. -/
theorem flush_then_consults (f : Channel → Channel) (ch : Channel) :
    (do flush; modifyChannel f : Encoding Unit).ConsultsAt ch [] :=
  .bind (flush_consults ch) fun _ _ => .modifyChannel f

theorem enter_consults (sound : Sound) (ticks : Nat) (ch : Channel) :
    (enter sound ticks).ConsultsAt ch [] := by
  refine .modifyChannel_bind (.channel_bind ?_)
  split
  · exact .modifyChannel _
  · exact flush_then_consults _ _

theorem tie_consults (ticks : Nat) (ch : Channel) : (tie ticks).ConsultsAt ch [] := by
  refine .channel_bind ?_
  split
  · exact .warn _
  · split
    · exact .modifyChannel _
    · exact enter_consults .wait ticks ch

theorem setTempo_consults (tempo : Nat) (ch : Channel) : (setTempo tempo).ConsultsAt ch [] := by
  refine .channel_bind ?_
  split
  · exact .pure ()
  · split
    · exact .throw _
    · exact flush_then_consults _ ch

theorem setCutoff_consults (cutoff : Cutoff) (ch : Channel) :
    (setCutoff cutoff).ConsultsAt ch [] := by
  refine .channel_bind ?_
  split
  · exact .pure ()
  · exact flush_then_consults _ ch

theorem setOctave_consults (n : Int) (ch : Channel) : (setOctave n).ConsultsAt ch [] := by
  refine .channel_bind ?_
  split
  · exact .modifyChannel _
  · exact .throw _

theorem shiftOctave_consults (steps : Int) (ch : Channel) :
    (shiftOctave steps).ConsultsAt ch [] :=
  .channel_bind (setOctave_consults _ ch)

theorem setVolume_consults (n : Int) (ch : Channel) : (setVolume n).ConsultsAt ch [] := by
  refine .channel_bind ?_
  split
  · exact flush_then_consults _ ch
  · exact .throw _

theorem beginTuplet_consults (ch : Channel) : beginTuplet.ConsultsAt ch [] := by
  refine .channel_bind ?_
  split
  · exact .throw _
  · exact flush_then_consults _ ch

theorem writeTuplet_consults (entries : List TupletEntry) (ticks : Nat) (ch : Channel) :
    (writeTuplet entries ticks).ConsultsAt ch [] := by
  refine .modifyChannel_bind ?_
  split
  · exact .bind (noteLength_consults ticks _) fun _ _ => .modifyChannel _
  · exact .modifyChannel_bind (.bind (silenceLength_consults ticks _) fun _ _ => .modifyChannel _)

theorem endTuplet_consults (ticks : Nat) (ch : Channel) : (endTuplet ticks).ConsultsAt ch [] := by
  refine .channel_bind ?_
  split
  · exact .throw _
  · exact .modifyChannel_bind (writeTuplet_consults _ ticks _)

theorem setLoopPoint_consults (ch : Channel) : setLoopPoint.ConsultsAt ch [] := by
  refine .channel_bind ?_
  split
  · exact .throw _
  · exact flush_then_consults _ ch

/-- The reference is counted before anything else, so it is counted also where the sound that was
waiting cannot be written. -/
theorem useEffect_consults (e : Effect) (key : Nat) (everyNote : Bool) (ch : Channel) :
    (useEffect e key everyNote).ConsultsAt ch (if ch.voice.supports e then [(e, key)] else []) := by
  refine .channel_bind ?_
  split
  · exact .bind (.addRef e key) fun _ ch' => flush_then_consults _ ch'
  · exact .warn _

theorem finish_consults (ch : Channel) : finish.ConsultsAt ch [] := by
  refine .channel_bind ?_
  split
  · exact .pure ()
  · refine .bind (flush_consults ch) fun _ ch' => .channel_bind ?_
    split
    · exact .throw _
    · split
      · exact .modifyChannel _
      · exact .throw _

end Encoding

/-- The references that an event makes on a voice. -/
def Event.references (voice : Voice) : Event → List (Effect × Nat)
  | effect e key _ => if voice.supports e then [(e, key)] else []
  | _ => []

/-- **An event is a dialogue with the session.** -/
theorem Event.apply_consults (e : Event) (ch : Channel) :
    e.apply.ConsultsAt ch (e.references ch.voice) := by
  cases e with
  | note semitone ticks => exact Encoding.enter_consults _ ticks ch
  | rest ticks => exact Encoding.enter_consults _ ticks ch
  | wait ticks => exact Encoding.enter_consults _ ticks ch
  | tie ticks => exact Encoding.tie_consults ticks ch
  | octave n => exact Encoding.setOctave_consults n ch
  | octaveUp => exact Encoding.shiftOctave_consults 1 ch
  | octaveDown => exact Encoding.shiftOctave_consults (-1) ch
  | tempo n => exact Encoding.setTempo_consults n ch
  | volume n => exact Encoding.setVolume_consults n ch
  | cutoff c => exact Encoding.setCutoff_consults c ch
  | tupletStart => exact Encoding.beginTuplet_consults ch
  | tupletEnd ticks => exact Encoding.endTuplet_consults ticks ch
  | loopPoint => exact Encoding.setLoopPoint_consults ch
  | blockEnd => exact Encoding.flush_then_consults _ ch
  | effect e key everyNote => exact Encoding.useEffect_consults e key everyNote ch
  | effectOff e => exact Encoding.flush_then_consults _ ch

end Chiptune
