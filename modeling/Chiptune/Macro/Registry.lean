import Chiptune.Error
import Chiptune.Keyed
import Chiptune.Macro.Param

/-!
# Registries of macros

Each effect has a registry that keeps its macros under keys below 128: the operand that
selects a macro has one bit for something else. A macro is stored under a key of the
script's choice, or under a new one unless an equal macro is there already.

Operations run in `EStateM`, so a failure says what it leaves behind.

## Main definitions

* `Macro` — a stored macro, with its uses counted.
* `Registry` — the macros of one effect.
* `Registry.define`, `Registry.register` — store a macro.
* `Registry.pack` — turns every macro into the form that a chip wants, once.
* `MacroBank` — one registry for each effect.
-/

namespace Chiptune

/-- A stored macro. -/
structure Macro where
  /-- The key that it got. -/
  key : Nat
  /-- Its parameters, and the place where they are read. -/
  head : Playhead
  /-- How many commands select it. -/
  refCount : Nat
  /-- Further settings by name. -/
  extras : Keyed String Param
  deriving Repr, Inhabited

namespace Macro

/-- The parameters. -/
def seq (m : Macro) : ParamSeq := m.head.seq

/-- A macro with a key that nothing uses yet. -/
def new (key : Nat) (s : ParamSeq) : Macro := ⟨key, .start s, 0, .empty⟩

/-- The same macro with other parameters. -/
def withSeq (m : Macro) (s : ParamSeq) : Macro := { m with head := .start s }

end Macro

/-- The macros of one effect. -/
structure Registry where
  /-- The effect. -/
  effect : Effect
  /-- The macros by key. -/
  entries : Keyed Nat Macro
  /-- The key that a new macro gets. -/
  nextKey : Nat
  /-- Whether the macros have the form that a chip wants. -/
  packed : Bool
  deriving Repr, Inhabited

namespace Registry

/-- The largest key. -/
def maxKey : Nat := 0x7F

/-- The registry of an effect without macros. -/
def new (e : Effect) : Registry := ⟨e, .empty, 0, false⟩

/-- The macro under a key. -/
def get? (r : Registry) (key : Nat) : Option Macro := r.entries.find? key

/-- The key of the first macro, in key order, with these parameters. -/
def find? (r : Registry) (s : ParamSeq) : Option Nat :=
  (r.entries.toList.find? fun e => e.2.seq = s).map (·.2.key)

/-- How many commands select the macro under a key. -/
def refCount (r : Registry) (key : Nat) : Nat := ((r.get? key).map (·.refCount)).getD 0

/-- A setting of the macro under a key. -/
def extra? (r : Registry) (key : Nat) (name : String) : Option Param :=
  (r.get? key).bind fun m => m.extras.find? name

/-- Stores a macro under a key. If there is one already, it gets other parameters. -/
def define (key : Nat) (s : ParamSeq) : EStateM Error Registry Nat := fun r =>
  if maxKey < key then .error (.registryFull r.effect) r
  else
    let entry :=
      match r.get? key with
      | some m => m.withSeq s
      | none => .new key s
    .ok key { r with entries := r.entries.insert key entry, nextKey := max r.nextKey (key + 1) }

/-- Stores a macro under a new key, unless these parameters are there already. -/
def register (s : ParamSeq) : EStateM Error Registry Nat := fun r =>
  match r.find? s with
  | some key => .ok key r
  | none => define r.nextKey s r

/-- Changes the macro under a key. -/
def update (key : Nat) (f : Macro → Macro) : EStateM Error Registry Unit := fun r =>
  if r.entries.contains key then .ok () { r with entries := r.entries.modify key f }
  else .error (.undefinedMacro r.effect key) r

/-- Counts one more command that selects the macro under a key. -/
def addRef (key : Nat) : EStateM Error Registry Unit :=
  update key fun m => { m with refCount := m.refCount + 1 }

/-- Sets a setting of the macro under a key. -/
def setExtra (key : Nat) (name : String) (value : Param) : EStateM Error Registry Unit :=
  update key fun m => { m with extras := m.extras.insert name value }

/-- Reads the next parameter of the macro under a key. -/
def advance (key : Nat) (r : Registry) : Option Param × Registry :=
  match r.get? key with
  | none => (none, r)
  | some m =>
    (m.head.peek?,
      { r with entries := r.entries.modify key fun m => { m with head := m.head.advance } })

/-- Packs macros in key order, up to the first that cannot be packed. -/
def packEntries (f : ParamSeq → Except Error ParamSeq) :
    List (Nat × Macro) → Option Error × List (Nat × Macro)
  | [] => (none, [])
  | (key, m) :: es =>
    match f m.seq with
    | .error e => (some e, (key, m) :: es)
    | .ok s =>
      let (error, es) := packEntries f es
      (error, (key, m.withSeq s) :: es)

/-- Gives every macro the form that a chip wants. That can be done once; after a failure the
macros before it are packed and the others are not. -/
def pack (f : ParamSeq → Except Error ParamSeq) : EStateM Error Registry Unit := fun r =>
  if r.packed then .error (.alreadyPacked r.effect) r
  else
    match packEntries f r.entries.toList with
    | (some e, es) => .error e { r with entries := ⟨es⟩ }
    | (none, es) => .ok () { r with entries := ⟨es⟩, packed := true }

end Registry

/-- One registry for each effect. -/
structure MacroBank where
  /-- The registries in the driver's numbering of the effects. -/
  registries : Vector Registry 14

namespace MacroBank

/-- The registries without macros. -/
def new : MacroBank :=
  ⟨Vector.ofFn fun i => .new (Effect.all[i])⟩

/-- The registry of an effect. -/
def get (b : MacroBank) (e : Effect) : Registry := b.registries[e.index]

/-- Puts a registry in the place of the one of an effect. -/
def set (b : MacroBank) (e : Effect) (r : Registry) : MacroBank :=
  ⟨b.registries.set e.index r⟩

/-- Every registry, in the driver's numbering. -/
def toList (b : MacroBank) : List Registry := b.registries.toList

/-- Does something with the registry of an effect. -/
def on {α : Type} (e : Effect) (act : EStateM Error Registry α) : EStateM Error MacroBank α :=
  fun b =>
    match act (b.get e) with
    | .ok a r => .ok a (b.set e r)
    | .error err r => .error err (b.set e r)

@[simp] theorem get_set (b : MacroBank) (e e' : Effect) (r : Registry) :
    (b.set e r).get e' = if e = e' then r else b.get e' := by
  simp only [get, set, Fin.getElem_fin, Vector.getElem_set]
  by_cases h : e = e'
  · simp [h]
  · have : (e.index : Nat) ≠ e'.index := fun hi => h (Effect.index_injective (Fin.ext hi))
    simp [h, this]

theorem get_new (e : Effect) : new.get e = .new e := by cases e <;> rfl

end MacroBank

end Chiptune
