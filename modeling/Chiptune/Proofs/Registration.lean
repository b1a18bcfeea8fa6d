import Chiptune.Proofs.Dialogue
import Chiptune.Proofs.Stages

/-!
# Registries stay in order

Macros are defined, get further settings and are packed.  None of that counts a reference, the keys
of a registry stay in order and small enough for an operand, and each macro stays under its own key.

## Main definitions

* `Keeps` — an operation that keeps a property of its state, whether it succeeds or not.
* `Registry.seq?`, `Registry.put` — the parameters under a key, and parameters stored under one.
* `Registry.Tidy` — a registry in order.

## Main results

* `Session.defineMacros_keeps_refCount`, `Platform.packMacros_keeps_refCount` — neither definitions
  nor packing count references.
* `Session.defineMacros_keeps_tidy`, `Platform.packMacros_keeps_tidy` — both keep all registries in
  order.
* `Registry.seq?_packEntries`, `Registry.pack_eq_ok` — what packing makes of the parameters under a
  key, if it fails midway and if it succeeds.
-/

namespace Chiptune

/-! ### Properties of the state -/

section Keeps

variable {σ α β γ : Type} {P : σ → Prop}

/-- The operation keeps a property of its state, whether it succeeds or not. -/
def Keeps (P : σ → Prop) (act : EStateM Error σ α) : Prop := ∀ s, P s → P (act s).state

namespace Keeps

theorem pure (a : α) : Keeps P (Pure.pure a : EStateM Error σ α) := fun _ h => h

theorem bind {x : EStateM Error σ α} {f : α → EStateM Error σ β} (hx : Keeps P x)
    (hf : ∀ a, Keeps P (f a)) : Keeps P (x >>= f) := by
  intro s hs
  have hstate := hx s hs
  rw [EStateM.Result.bind_eq_next]
  cases hr : x s with
  | error e s₁ =>
    rw [hr] at hstate
    exact hstate
  | ok a s₁ =>
    rw [hr] at hstate
    exact hf a s₁ hstate

theorem forM {f : γ → EStateM Error σ Unit} (cs : List γ) (hf : ∀ c ∈ cs, Keeps P (f c)) :
    Keeps P (cs.forM f) := by
  induction cs with
  | nil => exact pure ()
  | cons c cs ih =>
    obtain ⟨hc, hcs⟩ := List.forall_mem_cons.mp hf
    exact bind hc fun _ => ih hcs

end Keeps

end Keeps

/-! ### Registries -/

namespace Keyed

variable {α : Type}

theorem mem_insertInto {key : Nat} {a : α} {es : List (Nat × α)} {e : Nat × α}
    (h : e ∈ insertInto key a es) : e = (key, a) ∨ e ∈ es := by
  induction es with
  | nil => simpa [insertInto] using h
  | cons x es ih =>
    unfold insertInto at h
    split at h
    · exact (List.mem_cons.mp h).imp_right (List.mem_cons_of_mem _)
    · split at h
      · exact List.mem_cons.mp h
      · rcases List.mem_cons.mp h with rfl | h
        · exact Or.inr List.mem_cons_self
        · exact (ih h).imp_right (List.mem_cons_of_mem _)

theorem mem_keys_insertInto {key key' : Nat} {a : α} {es : List (Nat × α)}
    (h : key' ∈ (insertInto key a es).map (·.1)) : key' = key ∨ key' ∈ es.map (·.1) := by
  obtain ⟨e, he, rfl⟩ := List.mem_map.mp h
  rcases mem_insertInto he with rfl | he
  · exact Or.inl rfl
  · exact Or.inr (List.mem_map_of_mem he)

theorem ordered_insertInto {key : Nat} {a : α} {es : List (Nat × α)}
    (h : (es.map (·.1)).Pairwise (· < ·)) : ((insertInto key a es).map (·.1)).Pairwise (· < ·) := by
  induction es with
  | nil => simp [insertInto]
  | cons e es ih =>
    obtain ⟨hhead, htail⟩ := List.pairwise_cons.mp h
    unfold insertInto
    split
    · next heq =>
      subst heq
      exact h
    · split
      · next hlt =>
        refine List.pairwise_cons.mpr ⟨fun key' hkey' => ?_, h⟩
        rcases List.mem_cons.mp hkey' with rfl | hkey'
        · exact hlt
        · exact Nat.lt_trans hlt (hhead key' hkey')
      · next hne hnlt =>
        refine List.pairwise_cons.mpr ⟨fun key' hkey' => ?_, ih htail⟩
        rcases mem_keys_insertInto hkey' with rfl | hkey'
        · exact Nat.lt_of_le_of_ne (Nat.le_of_not_lt hnlt) (Ne.symm hne)
        · exact hhead key' hkey'

/-- Where keys are in order, the entries are the values that are found. -/
theorem mem_toList_iff {m : Keyed Nat α} (h : m.keys.Pairwise (· < ·)) {key : Nat} {a : α} :
    (key, a) ∈ m.toList ↔ m.find? key = some a := by
  obtain ⟨es⟩ := m
  simp only [find?, keys] at h ⊢
  induction es with
  | nil => simp
  | cons e es ih =>
    obtain ⟨hhead, htail⟩ := List.pairwise_cons.mp h
    rw [List.mem_cons, List.find?_cons]
    by_cases hkey : e.1 = key
    · -- no later entry has the key
      have hnot : (key, a) ∉ es := by
        intro hmem
        have hlt : e.1 < key := hhead key (List.mem_map.mpr ⟨_, hmem, rfl⟩)
        omega
      subst hkey
      simp only [hnot, or_false, decide_true, Option.map_some, Option.some.injEq]
      exact ⟨fun h => (congrArg Prod.snd h).symm, fun h => by rw [← h]⟩
    · have hne : (key, a) ≠ e := fun h => hkey (congrArg Prod.fst h).symm
      simp only [hne, false_or, hkey, decide_false]
      exact ih htail

end Keyed

namespace Registry

/-- The parameters under a key. -/
def seq? (r : Registry) (key : Nat) : Option ParamSeq := (r.get? key).map Macro.seq

/-- The registry with parameters stored under a key. -/
def put (r : Registry) (key : Nat) (s : ParamSeq) : Registry :=
  { r with
    entries := r.entries.insert key ((r.get? key).elim (.new key s) (·.withSeq s))
    nextKey := max r.nextKey (key + 1) }

theorem define_eq (key : Nat) (s : ParamSeq) (r : Registry) :
    define key s r =
      if maxKey < key then .error (.registryFull r.effect) r else .ok key (r.put key s) := by
  unfold define put
  cases r.get? key <;> rfl

/-- A registry in order: it belongs to the effect, its keys are in order and not too large, and each
macro is stored under its own key. -/
structure Tidy (e : Effect) (r : Registry) : Prop where
  /-- It belongs to the effect. -/
  effect : r.effect = e
  /-- The keys are in order. -/
  ordered : r.entries.keys.Pairwise (· < ·)
  /-- The keys are small enough. -/
  keys_le : ∀ key ∈ r.entries.keys, key ≤ maxKey
  /-- Each macro is stored under its own key. -/
  own_key : ∀ x ∈ r.entries.toList, x.2.key = x.1

theorem tidy_new (e : Effect) : Tidy e (.new e) :=
  ⟨rfl, List.Pairwise.nil, (fun _ h => nomatch h), fun _ h => nomatch h⟩

/-- Where each macro is stored under its own key, that is the key under which it is found. -/
theorem find?_eq_of_own_key {r : Registry} (hown : ∀ x ∈ r.entries.toList, x.2.key = x.1)
    (s : ParamSeq) : r.find? s = (r.entries.toList.find? fun x => x.2.seq = s).map (·.1) := by
  unfold find?
  cases hfind : r.entries.toList.find? fun x => x.2.seq = s with
  | none => rfl
  | some x => exact congrArg some (hown x (List.mem_of_find?_eq_some hfind))

section Operations

variable {e : Effect} {count : Nat → Nat}

namespace Tidy

variable {r : Registry} {key : Nat}

theorem key_eq (h : Tidy e r) {m : Macro} (hm : r.get? key = some m) : m.key = key :=
  h.own_key (key, m) ((Keyed.mem_toList_iff h.ordered).mpr hm)

/-- Only the keys count: those under which macros are stored, and their own. -/
theorem congr {r' : Registry} (h : Tidy e r) (heffect : r'.effect = r.effect)
    (hkeys : r'.entries.keys = r.entries.keys)
    (hown : ∀ x ∈ r'.entries.toList, ∃ m, (x.1, m) ∈ r.entries.toList ∧ x.2.key = m.key) :
    Tidy e r' := by
  refine ⟨heffect.trans h.effect, hkeys ▸ h.ordered, hkeys ▸ h.keys_le, fun x hx => ?_⟩
  obtain ⟨m, hm, hkey⟩ := hown x hx
  exact hkey.trans (h.own_key _ hm)

theorem put (h : Tidy e r) (hkey : key ≤ maxKey) (s : ParamSeq) : Tidy e (r.put key s) := by
  refine ⟨h.effect, Keyed.ordered_insertInto h.ordered, fun key' hkey' => ?_, fun x hx => ?_⟩
  · rcases Keyed.mem_keys_insertInto hkey' with rfl | hmem
    · exact hkey
    · exact h.keys_le key' hmem
  · rcases Keyed.mem_insertInto hx with rfl | hx
    · -- a macro that was there before has the key already
      cases hm : r.get? key with
      | none => rfl
      | some m =>
        show m.key = key
        exact h.key_eq hm
    · exact h.own_key x hx

/-- A macro may be changed, but not its key. -/
theorem modify (h : Tidy e r) {f : Macro → Macro} (hf : ∀ m, (f m).key = m.key) :
    Tidy e { r with entries := r.entries.modify key f } := by
  refine h.congr rfl (Keyed.keys_modify _ _ _) fun x hx => ?_
  obtain ⟨⟨key', m⟩, hm, rfl⟩ := List.mem_map.mp hx
  by_cases hkey : key' = key
  · simp only [hkey, if_true]
    exact ⟨m, hkey ▸ hm, hf m⟩
  · simp only [hkey, if_false]
    exact ⟨m, hm, rfl⟩

end Tidy

theorem define_keeps_tidy (key : Nat) (s : ParamSeq) : Keeps (Tidy e) (define key s) := by
  intro r h
  rw [define_eq]
  split
  · exact h
  · next hle => exact h.put (Nat.le_of_not_lt hle) s

/-- A macro that is defined again keeps its count. -/
theorem define_keeps_refCount (key : Nat) (s : ParamSeq) :
    Keeps (fun r : Registry => r.refCount = count) (define key s) := by
  rintro r rfl
  unfold define
  split
  · rfl
  · funext key'
    simp only [EStateM.Result.state, refCount, get?, Keyed.find?_insert]
    by_cases h : key = key'
    · subst h
      cases r.entries.find? key <;> simp [Macro.new, Macro.withSeq]
    · simp [h]

theorem register_keeps_tidy (s : ParamSeq) : Keeps (Tidy e) (register s) := by
  intro r h
  unfold register
  split
  · exact h
  · exact define_keeps_tidy r.nextKey s r h

theorem register_keeps_refCount (s : ParamSeq) :
    Keeps (fun r : Registry => r.refCount = count) (register s) := by
  intro r h
  unfold register
  split
  · exact h
  · exact define_keeps_refCount r.nextKey s r h

theorem update_keeps_tidy (key : Nat) {f : Macro → Macro} (hf : ∀ m, (f m).key = m.key) :
    Keeps (Tidy e) (update key f) := by
  intro r h
  unfold update
  split
  · exact h.modify hf
  · exact h

theorem setExtra_keeps_refCount (key : Nat) (name : String) (value : Param) :
    Keeps (fun r : Registry => r.refCount = count) (setExtra key name value) := by
  rintro r rfl
  unfold setExtra update
  split
  · funext key'
    simp only [EStateM.Result.state, refCount, get?, Keyed.find?_modify]
    by_cases h : key = key'
    · cases r.entries.find? key' <;> simp [h]
    · simp [h]
  · rfl

/-! ### Packing -/

theorem keys_packEntries (f : ParamSeq → Except Error ParamSeq) (es : List (Nat × Macro)) :
    (packEntries f es).2.map (·.1) = es.map (·.1) := by
  induction es with
  | nil => rfl
  | cons entry es ih =>
    obtain ⟨key, m⟩ := entry
    unfold packEntries
    split
    · rfl
    · simpa using ih

/-- What was packed, and what was not reached, comes from a macro under the same key. -/
theorem exists_of_mem_packEntries {f : ParamSeq → Except Error ParamSeq} {x : Nat × Macro} :
    ∀ {es : List (Nat × Macro)}, x ∈ (packEntries f es).2 →
      ∃ m, (x.1, m) ∈ es ∧ (x.2 = m ∨ ∃ s, f m.seq = .ok s ∧ x.2 = m.withSeq s) := by
  intro es
  induction es with
  | nil => intro h; cases h
  | cons e es ih =>
    obtain ⟨key, m⟩ := e
    intro h
    unfold packEntries at h
    split at h
    · exact ⟨x.2, h, Or.inl rfl⟩
    · next s hs =>
      rcases List.mem_cons.mp h with rfl | h
      · exact ⟨m, List.mem_cons_self, Or.inr ⟨s, hs, rfl⟩⟩
      · obtain ⟨m', hm', hx⟩ := ih h
        exact ⟨m', List.mem_cons_of_mem _ hm', hx⟩

theorem Tidy.packEntries {r : Registry} (h : Tidy e r) (f : ParamSeq → Except Error ParamSeq)
    (packed : Bool) :
    Tidy e
      { r with entries := ⟨(packEntries f r.entries.toList).2⟩, packed := packed } := by
  refine h.congr rfl (keys_packEntries f _) fun x hx => ?_
  obtain ⟨m, hm, hx | ⟨s, -, hx⟩⟩ := exists_of_mem_packEntries hx
  · exact ⟨m, hm, by rw [hx]⟩
  · exact ⟨m, hm, by rw [hx]; rfl⟩

theorem refCount_packEntries (f : ParamSeq → Except Error ParamSeq) (es : List (Nat × Macro))
    (key : Nat) :
    (((packEntries f es).2.find? (·.1 = key)).map (·.2)).map Macro.refCount =
      ((es.find? (·.1 = key)).map (·.2)).map Macro.refCount := by
  induction es with
  | nil => rfl
  | cons entry es ih =>
    obtain ⟨key', m⟩ := entry
    unfold packEntries
    split
    · rfl
    · by_cases h : key' = key
      · simp [h, Macro.withSeq]
      · simpa [h] using ih

/-- Under each key packing leaves a macro with its parameters packed or, after a failure, as it
was. -/
theorem find?_packEntries (f : ParamSeq → Except Error ParamSeq) (key : Nat)
    (es : List (Nat × Macro)) :
    Option.Rel (fun x y => f x.2.seq = .ok y.2.seq ∨ (packEntries f es).1.isSome ∧ y = x)
      (es.find? (·.1 = key)) ((packEntries f es).2.find? (·.1 = key)) := by
  induction es with
  | nil => exact .none
  | cons entry es ih =>
    obtain ⟨key', m⟩ := entry
    unfold packEntries
    split
    · cases ((key', m) :: es).find? (·.1 = key) with
      | none => exact .none
      | some x => exact .some (.inr ⟨rfl, rfl⟩)
    · next s hs =>
      by_cases h : key' = key
      · simp only [List.find?_cons_of_pos, h, decide_true]
        exact .some (.inl hs)
      · simpa only [List.find?_cons_of_neg, h, decide_false, Bool.false_eq_true,
          not_false_eq_true] using ih

/-- Under each key packing leaves parameters, packed or as they were. -/
theorem seq?_packEntries (f : ParamSeq → Except Error ParamSeq) (r : Registry) (packed : Bool)
    (key : Nat) :
    Option.Rel (fun s s' => f s = .ok s' ∨ (packEntries f r.entries.toList).1.isSome ∧ s' = s)
      (r.seq? key)
      ({ r with entries := ⟨(packEntries f r.entries.toList).2⟩, packed := packed }.seq? key) := by
  have hfind := find?_packEntries f key r.entries.toList
  unfold seq? get? Keyed.find?
  generalize r.entries.toList.find? (·.1 = key) = x at hfind ⊢
  generalize (packEntries f r.entries.toList).2.find? (·.1 = key) = y at hfind ⊢
  cases hfind with
  | none => exact .none
  | some hxy => exact .some (hxy.imp_right fun h => ⟨h.1, by rw [h.2]⟩)

/-- Where a registry can be packed, the parameters under each key get their form. -/
theorem pack_eq_ok {f : ParamSeq → Except Error ParamSeq} {r r' : Registry}
    (h : pack f r = .ok () r') (key : Nat) :
    Option.Rel (fun s s' => f s = .ok s') (r.seq? key) (r'.seq? key) := by
  unfold pack at h
  split at h
  · cases h
  · split at h
    · cases h
    · next es hes =>
      cases h
      have hseq := seq?_packEntries f r true key
      simp only [hes, Option.isSome_none, Bool.false_eq_true, false_and, or_false] at hseq
      exact hseq

/-- What packing leaves, whether it fails or not: macros that are packed as far as possible, or the
registry as it was. -/
theorem state_pack (f : ParamSeq → Except Error ParamSeq) (r : Registry) :
    (∃ packed, (pack f r).state =
        { r with entries := ⟨(packEntries f r.entries.toList).2⟩, packed := packed }) ∨
      (pack f r).state = r := by
  unfold pack
  split
  · exact .inr rfl
  · cases packEntries f r.entries.toList with
    | mk error es =>
      cases error with
      | none => exact .inl ⟨true, rfl⟩
      | some err => exact .inl ⟨r.packed, rfl⟩

theorem pack_keeps_tidy (f : ParamSeq → Except Error ParamSeq) : Keeps (Tidy e) (pack f) := by
  intro r h
  rcases state_pack f r with ⟨packed, hstate⟩ | hstate
  · rw [hstate]
    exact h.packEntries f packed
  · rw [hstate]
    exact h

theorem pack_keeps_refCount (f : ParamSeq → Except Error ParamSeq) :
    Keeps (fun r : Registry => r.refCount = count) (pack f) := by
  rintro r rfl
  rcases state_pack f r with ⟨packed, hstate⟩ | hstate
  · rw [hstate]
    exact funext fun key => congrArg (·.getD 0) (refCount_packEntries f r.entries.toList key)
  · rw [hstate]

end Operations

end Registry

/-! ### Sessions -/

namespace Session

variable {P : Effect → Registry → Prop}

/-- What is done with the macros of an effect leaves the rest of the session alone. -/
theorem state_onMacros {α : Type} (e : Effect) (act : EStateM Error Registry α) (s : Session) :
    (onMacros e act s).state =
      { s with macros := s.macros.set e (act (s.macros.get e)).state } := by
  unfold onMacros MacroBank.on
  cases act (s.macros.get e) <;> rfl

theorem onMacros_keeps {α : Type} {e : Effect} {act : EStateM Error Registry α}
    (h : Keeps (P e) act) :
    Keeps (fun s : Session => ∀ e, P e (s.macros.get e)) (onMacros e act) := by
  intro s hs e'
  rw [state_onMacros, MacroBank.get_set]
  split
  · next he =>
    subst he
    exact h _ (hs e)
  · exact hs e'

theorem onMacros_keeps_rest {α : Type} {e : Effect} {act : EStateM Error Registry α}
    {o : Options} {j : Journal} :
    Keeps (fun s : Session => s.options = o ∧ s.journal = j) (onMacros e act) := by
  intro s hs
  rw [state_onMacros]
  exact hs

/-- A property of registries that storing a macro and setting a setting keep is kept by
definitions. -/
theorem defineMacros_keeps {ds : List MacroDef}
    (hdefine : ∀ d ∈ ds, ∀ key, Keeps (P d.effect) (Registry.define key d.seq))
    (hregister : ∀ d ∈ ds, Keeps (P d.effect) (Registry.register d.seq))
    (hextra : ∀ e key name value, Keeps (P e) (Registry.setExtra key name value)) :
    Keeps (fun s : Session => ∀ e, P e (s.macros.get e)) (defineMacros ds) := by
  refine Keeps.forM ds fun d hd => onMacros_keeps ?_
  have hextras (key : Nat) : Keeps (P d.effect)
      (d.extras.toList.forM fun x => Registry.setExtra key x.1 x.2) :=
    .forM _ fun x _ => hextra d.effect key x.1 x.2
  split
  · next key _ => exact .bind (hdefine d hd key) hextras
  · exact .bind (hregister d hd) hextras

/-- All registries are in order. -/
def Tidy (s : Session) : Prop := ∀ e, (s.macros.get e).Tidy e

theorem tidy_new (o : Options) : (new o).Tidy := by
  intro e
  rw [new, MacroBank.get_new]
  exact Registry.tidy_new e

theorem Tidy.refer {s : Session} (h : s.Tidy) (e : Effect) (key : Nat) : (s.refer e key).Tidy := by
  intro e'
  rw [get_refer]
  by_cases he : e = e'
  · rw [if_pos he]
    exact (h e').modify fun _ => rfl
  · rw [if_neg he]
    exact h e'

theorem Tidy.grantAll {s : Session} (h : s.Tidy) (qs : List Appeal) : (s.grantAll qs).Tidy := by
  induction qs generalizing s with
  | nil => exact h
  | cons q qs ih =>
    rw [grantAll_cons]
    cases q with
    | warn w => exact ih h
    | refer e key => exact ih (h.refer e key)

/-- The key of a macro that is there is small enough for an operand. -/
theorem Tidy.key_le {s : Session} (h : s.Tidy) {e : Effect} {key : Nat}
    (hkey : s.missing? e key = none) : key ≤ Registry.maxKey := by
  unfold missing? at hkey
  split at hkey
  · next hc => exact (h e).keys_le key ((Keyed.contains_iff_mem_keys _ _).mp hc)
  · cases hkey

theorem defineMacros_keeps_tidy (ds : List MacroDef) : Keeps Tidy (defineMacros ds) :=
  defineMacros_keeps (P := Registry.Tidy) (fun d _ key => Registry.define_keeps_tidy key d.seq)
    (fun d _ => Registry.register_keeps_tidy d.seq)
    fun _ key _ _ => Registry.update_keeps_tidy key fun _ => rfl

theorem refCount_new (o : Options) (e : Effect) (key : Nat) : (new o).refCount e key = 0 := by
  rw [refCount, new, MacroBank.get_new]
  rfl

theorem refCount_eq_iff {s : Session} {count : Effect → Nat → Nat} :
    s.refCount = count ↔ ∀ e, (s.macros.get e).refCount = count e :=
  funext_iff

/-- **Definitions count no references**, whether they succeed or not. -/
theorem defineMacros_keeps_refCount {count : Effect → Nat → Nat} (ds : List MacroDef) :
    Keeps (fun s : Session => s.refCount = count) (defineMacros ds) := by
  intro s hs
  rw [refCount_eq_iff] at hs ⊢
  exact defineMacros_keeps (P := fun e r => r.refCount = count e)
    (fun d _ key => Registry.define_keeps_refCount key d.seq)
    (fun d _ => Registry.register_keeps_refCount d.seq)
    (fun _ => Registry.setExtra_keeps_refCount) s hs

theorem defineMacros_keeps_rest {o : Options} {j : Journal} (ds : List MacroDef) :
    Keeps (fun s : Session => s.options = o ∧ s.journal = j) (defineMacros ds) :=
  .forM ds fun _ _ => onMacros_keeps_rest

end Session

namespace Platform

theorem packMacros_keeps {P : Effect → Registry → Prop} {p : Platform}
    (h : ∀ packing ∈ p.packings, Keeps (P packing.1) (Registry.pack packing.2)) :
    Keeps (fun s : Session => ∀ e, P e (s.macros.get e)) p.packMacros :=
  .forM p.packings fun packing hpacking => Session.onMacros_keeps (h packing hpacking)

theorem packMacros_keeps_rest {o : Options} {j : Journal} (p : Platform) :
    Keeps (fun s : Session => s.options = o ∧ s.journal = j) p.packMacros :=
  .forM p.packings fun _ _ => Session.onMacros_keeps_rest

theorem packMacros_keeps_tidy (p : Platform) : Keeps Session.Tidy p.packMacros :=
  packMacros_keeps fun packing _ => Registry.pack_keeps_tidy packing.2

/-- **Packing counts no references**, whether it succeeds or not. -/
theorem packMacros_keeps_refCount {count : Effect → Nat → Nat} (p : Platform) :
    Keeps (fun s : Session => s.refCount = count) p.packMacros := by
  intro s hs
  rw [Session.refCount_eq_iff] at hs ⊢
  exact packMacros_keeps (P := fun e r => r.refCount = count e)
    (fun packing _ => Registry.pack_keeps_refCount packing.2) s hs

end Platform

end Chiptune
