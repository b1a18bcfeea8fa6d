import Chiptune.Compile

/-!
# The stages of a compilation

A compilation is made of operations on a session, on the channels of a song and on both.  Here each
of them is brought into the form of an operation on a part, of which the result is put back into the
whole.  An operation on the channel of a name looks for the channel, works on it and puts it back;
nothing else of the song takes part in it.

## Main definitions

* `EStateM.Result.state`, `EStateM.Result.outcome` — the two sides of a result.
* `EStateM.Result.mapState`, `EStateM.Result.next` — a result put back into a whole, and an
  operation after it.
* `Song.named?`, `Song.put` — the channel of a name, and the song with another one in its place.

## Main results

* `Song.onChannel?_eq` — an operation on the channel of a name is one on that channel.
* `Song.named?_put` — the channels of other names stay as they are.
* `Script.compileIn_eq` — a compilation by its stages.
-/

namespace EStateM.Result

variable {ε σ τ α β : Type}

/-- The state that an operation leaves, whether it succeeds or not. -/
def state : EStateM.Result ε σ α → σ
  | .ok _ s | .error _ s => s

/-- The value or the error, without the state. -/
def outcome : EStateM.Result ε σ α → Except ε α
  | .ok a _ => .ok a
  | .error e _ => .error e

/-- The same result with another state. -/
def mapState (f : σ → τ) : EStateM.Result ε σ α → EStateM.Result ε τ α
  | .ok a s => .ok a (f s)
  | .error e s => .error e (f s)

/-- A result, and an operation after it if it is a success. -/
def next (r : EStateM.Result ε σ α) (leave : σ → τ) (k : α → σ → EStateM.Result ε τ β) :
    EStateM.Result ε τ β :=
  match r with
  | .ok a s => k a s
  | .error e s => .error e (leave s)

theorem mapState_eq_next (r : EStateM.Result ε σ α) (f : σ → τ) :
    r.mapState f = r.next f fun a s => .ok a (f s) := by
  cases r <;> rfl

theorem bind_eq_next (x : EStateM ε σ α) (f : α → EStateM ε σ β) (s : σ) :
    (x >>= f) s = (x s).next id f := by
  change EStateM.bind x f s = _
  unfold EStateM.bind
  cases x s <;> rfl

theorem next_eq_ok {r : EStateM.Result ε σ α} {leave : σ → τ} {k : α → σ → EStateM.Result ε τ β}
    {b : β} {t : τ} (h : r.next leave k = .ok b t) : ∃ a s, r = .ok a s ∧ k a s = .ok b t := by
  cases r with
  | ok a s => exact ⟨a, s, rfl, h⟩
  | error e s => cases h

theorem mapState_eq_ok {f : σ → τ} {r : EStateM.Result ε σ α} {a : α} {t : τ}
    (h : r.mapState f = .ok a t) : ∃ s, r = .ok a s ∧ t = f s := by
  cases r with
  | ok b s =>
    cases h
    exact ⟨s, rfl, rfl⟩
  | error e s => cases h

end EStateM.Result

namespace Chiptune
namespace Song

variable {α : Type}

/-- The channel of a name, that of the patterns included. -/
def named? (song : Song) (name : String) : Option Channel :=
  if song.pattern.name == name then some song.pattern else song.channel? name

/-- Channels with another one in the place of the first of a name. -/
def replaceFirst (name : String) (ch : Channel) : List Channel → List Channel
  | [] => []
  | c :: chs => if c.name == name then ch :: chs else c :: replaceFirst name ch chs

/-- The song with another channel in the place of the one of a name. -/
def put (song : Song) (name : String) (ch : Channel) : Song :=
  if song.pattern.name == name then { song with pattern := ch }
  else { song with channels := replaceFirst name ch song.channels }

/-- The names of all channels. -/
def names (song : Song) : List String := song.pattern.name :: song.channels.map (·.name)

/-! ### Operations on a song -/

theorem onPattern_eq (act : Encoding α) (song : Song) (session : Session) :
    onPattern act (song, session) =
      (act ⟨song.pattern, session⟩).mapState
        fun d => ({ song with pattern := d.channel }, d.session) := by
  simp only [onPattern]
  cases act ⟨song.pattern, session⟩ <;> rfl

theorem onSession_eq (act : EStateM Error Session α) (song : Song) (session : Session) :
    onSession act (song, session) = (act session).mapState fun s => (song, s) := by
  simp only [onSession]
  cases act session <;> rfl

theorem onEach_cons (act : Encoding Unit) (session : Session) (ch : Channel) (chs : List Channel) :
    onEach act session (ch :: chs) =
      (act ⟨ch, session⟩).next (fun d => (d.channel :: chs, d.session)) fun _ d =>
        (onEach act d.session chs).mapState fun p => (d.channel :: p.1, p.2) := by
  simp only [onEach]
  cases act ⟨ch, session⟩ with
  | error e d => rfl
  | ok a d =>
    simp only [EStateM.Result.next]
    cases onEach act d.session chs <;> rfl

theorem onVoices_eq (act : Encoding Unit) (song : Song) (session : Session) :
    onVoices act (song, session) =
      (onEach act session song.channels).mapState
        fun p => ({ song with channels := p.1 }, p.2) := by
  simp only [onVoices]
  cases onEach act session song.channels <;> rfl

theorem onFirst?_eq (name : String) (act : Encoding α) (session : Session) (chs : List Channel) :
    onFirst? name act session chs =
      (chs.find? (·.name == name)).map fun ch =>
        (act ⟨ch, session⟩).mapState fun d => (replaceFirst name d.channel chs, d.session) := by
  induction chs with
  | nil => rfl
  | cons ch chs ih =>
    cases hname : ch.name == name with
    | true =>
      simp only [onFirst?, replaceFirst, hname, if_true, List.find?_cons, Option.map_some]
      cases act ⟨ch, session⟩ <;> rfl
    | false =>
      simp only [onFirst?, replaceFirst, hname, Bool.false_eq_true, if_false, List.find?_cons, ih]
      cases chs.find? (·.name == name) with
      | none => rfl
      | some c =>
        simp only [Option.map_some]
        cases act ⟨c, session⟩ <;> rfl

/-- **An operation on the channel of a name is one on that channel.** -/
theorem onChannel?_eq (name : String) (act : Encoding α) (song : Song) (session : Session) :
    song.onChannel? name act session =
      (song.named? name).map fun ch =>
        (act ⟨ch, session⟩).mapState fun d => (song.put name d.channel, d.session) := by
  unfold onChannel? named? put
  cases hname : song.pattern.name == name with
  | true => simp only [if_true, Option.map_some, onPattern_eq]
  | false =>
    simp only [Bool.false_eq_true, if_false, onFirst?_eq, channel?]
    cases song.channels.find? (·.name == name) with
    | none => rfl
    | some ch =>
      simp only [Option.map_some]
      cases act ⟨ch, session⟩ <;> rfl

/-! ### Finding what was put -/

theorem name_of_named? {song : Song} {name : String} {ch : Channel}
    (h : song.named? name = some ch) : ch.name = name := by
  unfold named? at h
  split at h
  · next hname =>
    cases h
    exact beq_iff_eq.mp hname
  · have hname := List.find?_some h
    exact beq_iff_eq.mp hname

theorem mem_names_of_named? {song : Song} {name : String} {ch : Channel}
    (h : song.named? name = some ch) : name ∈ song.names := by
  rw [← name_of_named? h]
  unfold named? at h
  split at h
  · cases h
    exact List.mem_cons_self
  · exact List.mem_cons_of_mem _ (List.mem_map_of_mem (List.mem_of_find?_eq_some h))

theorem find?_replaceFirst {name : String} {ch : Channel} (hch : ch.name = name) (name' : String) :
    ∀ {chs : List Channel}, (chs.find? (·.name == name)).isSome = true →
      (replaceFirst name ch chs).find? (·.name == name') =
        if name = name' then some ch else chs.find? (·.name == name') := by
  intro chs
  induction chs with
  | nil => intro h; cases h
  | cons c chs ih =>
    intro h
    cases hname : c.name == name with
    | true =>
      have hc : c.name = name := beq_iff_eq.mp hname
      by_cases hn : name = name' <;> simp [replaceFirst, hch, hc, hn]
    | false =>
      have hc : c.name ≠ name := by simpa using hname
      rw [List.find?_cons, hname] at h
      simp only [replaceFirst, hname, Bool.false_eq_true, if_false, List.find?_cons, ih h]
      by_cases hn : name = name'
      · subst hn
        simp [hname]
      · simp [hn]

/-- **What was put under a name is found under it**, and nothing changes under other names. -/
theorem named?_put {song : Song} {name : String} {ch ch' : Channel}
    (h : song.named? name = some ch) (hch : ch'.name = ch.name) (name' : String) :
    (song.put name ch').named? name' = if name = name' then some ch' else song.named? name' := by
  have hname : ch'.name = name := hch.trans (name_of_named? h)
  unfold put
  cases hp : song.pattern.name == name with
  | true =>
    have hpattern : song.pattern.name = name := beq_iff_eq.mp hp
    by_cases hn : name = name' <;> simp [named?, channel?, hname, hpattern, hn]
  | false =>
    have hpattern : song.pattern.name ≠ name := by simpa using hp
    have hfound : (song.channels.find? (·.name == name)).isSome = true := by
      simp only [named?, hp, Bool.false_eq_true, if_false, channel?] at h
      rw [h]
      rfl
    simp only [Bool.false_eq_true, if_false, named?, channel?]
    rw [find?_replaceFirst hname name' hfound]
    by_cases hn : name = name'
    · subst hn
      simp [hp]
    · simp [hn]

end Song

/-! ### Compilations -/

/-- A compilation by its stages: definitions, the song and the output. -/
theorem Script.compileIn_eq (script : Script) (s : Session) :
    script.compileIn s =
      if script.tempo = 0 then .error (.invalidTempo script.tempo) s
      else
        (Session.defineMacros script.macros s).next id fun _ s₁ =>
          let target := script.platform s.options
          (composeSong target script
              (Song.new target (s₁.options.clock target) script.tempo, s₁)).next Prod.snd
            fun _ p => match Output.build target p.1 p.2 with
              | .error e => .error e p.2
              | .ok output => .ok output p.2 := by
  simp only [compileIn]
  split
  · rfl
  · cases Session.defineMacros script.macros s with
    | error e s₁ => rfl
    | ok a s₁ =>
      simp only [EStateM.Result.next]
      cases composeSong _ _ _ <;> rfl

end Chiptune
