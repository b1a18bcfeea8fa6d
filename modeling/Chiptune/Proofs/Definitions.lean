import Chiptune.Playback.Player
import Chiptune.Proofs.Registration

/-!
# What definitions make of the macros

A script defines macros one after the other.  A definition has a key, or gets one: the smallest key
under which its parameters are in force, or else the next one above all keys in use.  So definitions
can meet under a key, if a script chooses it twice or if parameters are the same.

Here the keys are found from the definitions alone, and the registries are described by them.  The
macro under a key has the parameters of the last definition that got the key, but the settings of
all of them: neither a definition that takes the place of another one nor one that shares its
parameters takes the settings away that are there.

## Main definitions

* `Placed`, `placements` — definitions with the keys that they get.
* `Placed.under`, `Placed.inForce?` — the definitions under a key, and the parameters in force
  there.
* `MacroDef.merged?` — the macro that definitions under one key make.
* `Registry.After`, `Session.After` — the registries after some definitions.

## Main results

* `Session.defineMacro_after`, `Session.defineMacros_after` — the registries after one more
  definition, and after any number of them.
* `Placed.inForce?_placeAll` — parameters stay in force until their key is chosen again.
* `define_keeps_parameters` — what is under the key of a definition after all of them.
-/

namespace Chiptune

/-! ### Keys -/

/-- A definition with the key that it got. -/
structure Placed where
  /-- The definition. -/
  source : MacroDef
  /-- The key. -/
  key : Nat

namespace Placed

/-- The definitions of an effect that got a key, in order. -/
def under (ps : List Placed) (e : Effect) (key : Nat) : List MacroDef :=
  (ps.filter fun p => p.source.effect = e ∧ p.key = key).map (·.source)

/-- The parameters in force under a key: those of the last definition. -/
def inForce? (ps : List Placed) (e : Effect) (key : Nat) : Option ParamSeq :=
  (under ps e key).getLast?.map (·.seq)

/-- One above the keys that definitions of an effect got. -/
def fresh (ps : List Placed) (e : Effect) : Nat :=
  ((ps.filter (·.source.effect = e)).map (·.key + 1)).foldl max 0

/-- The key for one more definition: that of its choice, the smallest one with its parameters, or
one that is not in use. -/
def keyFor (ps : List Placed) (d : MacroDef) : Nat :=
  match d.key with
  | some key => key
  | none =>
    ((List.range (fresh ps d.effect)).find? fun key => inForce? ps d.effect key = some d.seq).getD
      (fresh ps d.effect)

/-- One more definition with its key. -/
def place (ps : List Placed) (d : MacroDef) : List Placed := ps ++ [⟨d, keyFor ps d⟩]

/-- More definitions with their keys. -/
def placeAll (ps : List Placed) (ds : List MacroDef) : List Placed := ds.foldl place ps

variable {ps : List Placed} {e : Effect} {d : MacroDef} {key : Nat}

theorem under_place (ps : List Placed) (d : MacroDef) (e : Effect) (key : Nat) :
    under (place ps d) e key =
      if d.effect = e ∧ keyFor ps d = key then under ps e key ++ [d] else under ps e key := by
  unfold under place
  by_cases h : d.effect = e ∧ keyFor ps d = key
  · rw [if_pos h, List.filter_append, List.filter_cons_of_pos (by simpa using h), List.filter_nil,
      List.map_append]
    rfl
  · rw [if_neg h, List.filter_append, List.filter_cons_of_neg (by simpa using h), List.filter_nil,
      List.append_nil]

theorem fresh_place (ps : List Placed) (d : MacroDef) (e : Effect) :
    fresh (place ps d) e =
      if d.effect = e then max (fresh ps e) (keyFor ps d + 1) else fresh ps e := by
  unfold fresh place
  by_cases h : d.effect = e
  · rw [if_pos h, List.filter_append, List.filter_cons_of_pos (by simpa using h), List.filter_nil,
      List.map_append, List.foldl_append]
    rfl
  · rw [if_neg h, List.filter_append, List.filter_cons_of_neg (by simpa using h), List.filter_nil,
      List.append_nil]

/-- A key that is not chosen has the parameters already, or is not in use. -/
theorem keyFor_cases (ps : List Placed) (hd : d.key = none) :
    inForce? ps d.effect (keyFor ps d) = some d.seq ∨ keyFor ps d = fresh ps d.effect := by
  simp only [keyFor, hd]
  cases hfind : (List.range (fresh ps d.effect)).find? fun key =>
      inForce? ps d.effect key = some d.seq with
  | none => exact Or.inr rfl
  | some key => exact Or.inl (by simpa using List.find?_some hfind)

/-- A key that is not in use is above all that are. -/
theorem lt_fresh {s : ParamSeq} (h : inForce? ps e key = some s) : key < fresh ps e := by
  obtain ⟨d, hlast, -⟩ := Option.map_eq_some_iff.mp h
  obtain ⟨p, hp, -⟩ := List.mem_map.mp (List.mem_of_getLast? hlast)
  obtain ⟨hmem, hfound⟩ := List.mem_filter.mp hp
  obtain ⟨heffect, rfl⟩ := of_decide_eq_true hfound
  have hmem : p.key + 1 ∈ (ps.filter (·.source.effect = e)).map (·.key + 1) :=
    List.mem_map_of_mem (List.mem_filter.mpr ⟨hmem, decide_eq_true heffect⟩)
  rw [fresh, List.foldl_max]
  exact Nat.le_trans (List.le_max?_getD_of_mem hmem) (Nat.le_max_right _ _)

/-- A definition that does not choose a key leaves the parameters there in force. -/
theorem inForce?_place {s : ParamSeq} (h : inForce? ps e key = some s)
    (hd : d.effect = e → d.key ≠ some key) : inForce? (place ps d) e key = some s := by
  rw [inForce?, under_place]
  by_cases hkey : d.effect = e ∧ keyFor ps d = key
  · obtain ⟨rfl, rfl⟩ := hkey
    rw [if_pos ⟨rfl, rfl⟩, List.getLast?_concat, Option.map_some]
    cases hchosen : d.key with
    | some k => exact absurd (by simp [keyFor, hchosen]) (hd rfl)
    | none =>
      -- it got the key since its parameters are the same
      rcases keyFor_cases ps hchosen with hforce | hfresh
      · rw [← hforce, h]
      · exact absurd (lt_fresh h) (by omega)
  · rw [if_neg hkey]
    exact h

/-- **Parameters stay in force until their key is chosen again.** -/
theorem inForce?_placeAll {s : ParamSeq} : ∀ {ds : List MacroDef} {ps : List Placed},
    inForce? ps e key = some s → (∀ d ∈ ds, d.effect = e → d.key ≠ some key) →
      inForce? (placeAll ps ds) e key = some s := by
  intro ds
  induction ds with
  | nil => intro ps h _; exact h
  | cons d ds ih =>
    intro ps h hds
    obtain ⟨hd, hds⟩ := List.forall_mem_cons.mp hds
    exact ih (inForce?_place h hd) hds

/-- The parameters of a definition are in force when it has got its key. -/
theorem inForce?_place_self (ps : List Placed) (d : MacroDef) :
    inForce? (place ps d) d.effect (keyFor ps d) = some d.seq := by
  rw [inForce?, under_place, if_pos ⟨rfl, rfl⟩, List.getLast?_concat, Option.map_some]

/-- No definition leaves its key. -/
theorem under_subset_placeAll {e : Effect} {key : Nat} : ∀ (ds : List MacroDef) (ps : List Placed),
    under ps e key ⊆ under (placeAll ps ds) e key := by
  intro ds
  induction ds with
  | nil => exact fun ps => List.Subset.refl _
  | cons d ds ih =>
    intro ps
    refine List.Subset.trans ?_ (ih (place ps d))
    rw [under_place]
    split
    · exact List.subset_append_left _ _
    · exact List.Subset.refl _

theorem source_placeAll : ∀ (ds : List MacroDef) (ps : List Placed),
    (placeAll ps ds).map (·.source) = ps.map (·.source) ++ ds := by
  intro ds
  induction ds with
  | nil => exact fun ps => (List.append_nil _).symm
  | cons d ds ih =>
    intro ps
    rw [placeAll, List.foldl_cons, ← placeAll, ih, place, List.map_append, List.append_assoc]
    rfl

end Placed

/-- The definitions of a script with the keys that they get. -/
def placements (ds : List MacroDef) : List Placed := Placed.placeAll [] ds

theorem placements_append (ds : List MacroDef) (d : MacroDef) (ds' : List MacroDef) :
    placements (ds ++ d :: ds') = Placed.placeAll (Placed.place (placements ds) d) ds' := by
  rw [placements, Placed.placeAll, List.foldl_append, List.foldl_cons]
  rfl

/-- A definition is under its key after all others. -/
theorem mem_under_placements (ds : List MacroDef) (d : MacroDef) (ds' : List MacroDef) :
    d ∈ Placed.under (placements (ds ++ d :: ds')) d.effect (Placed.keyFor (placements ds) d) := by
  rw [placements_append]
  refine Placed.under_subset_placeAll ds' _ ?_
  rw [Placed.under_place, if_pos ⟨rfl, rfl⟩]
  exact List.mem_append_right _ List.mem_cons_self

/-- Only definitions of a script get a key. -/
theorem mem_of_mem_under_placements {ds : List MacroDef} {d : MacroDef} {e : Effect} {key : Nat}
    (h : d ∈ Placed.under (placements ds) e key) : d ∈ ds := by
  obtain ⟨p, hp, rfl⟩ := List.mem_map.mp h
  have hmem := List.mem_map_of_mem (f := Placed.source) (List.mem_filter.mp hp).1
  rwa [placements, Placed.source_placeAll] at hmem

/-! ### Macros -/

/-- Entries are put into a map one after the other, none of them twice. -/
theorem Keyed.find?_insertAll {α : Type} {name : String} :
    ∀ {es : List (String × α)} {m : Keyed String α}, (es.map (·.1)).Nodup →
      (es.foldl (fun m x => m.insert x.1 x.2) m).find? name =
        ((es.find? (·.1 = name)).map (·.2)).or (m.find? name) := by
  intro es
  induction es with
  | nil => exact fun _ => rfl
  | cons x es ih =>
    intro m h
    obtain ⟨hx, hes⟩ := List.nodup_cons.mp h
    rw [List.foldl_cons, ih hes, find?_insert, List.find?_cons]
    by_cases hname : x.1 = name
    · -- no later entry has the name
      have hnone : es.find? (·.1 = name) = none := by
        rw [List.find?_eq_none]
        intro y hy hy'
        exact hx (List.mem_map.mpr ⟨y, hy, (of_decide_eq_true hy').trans hname.symm⟩)
      simp [hname, hnone]
    · simp [hname]

namespace MacroDef

/-- The settings of definitions, of which later ones win. -/
def settings (ds : List MacroDef) : Keyed String Param := .ofList (ds.flatMap (·.extras.toList))

/-- The macro that the definitions under one key make: it has the parameters of the last one and the
settings of all. -/
def merged? (key : Nat) (ds : List MacroDef) : Option Macro :=
  ds.getLast?.map fun d => ⟨key, .start d.seq, 0, settings ds⟩

theorem settings_append (ds : List MacroDef) (d : MacroDef) :
    settings (ds ++ [d]) =
      d.extras.toList.foldl (fun m x => m.insert x.1 x.2) (settings ds) := by
  simp [settings, Keyed.ofList]

theorem merged?_append (key : Nat) (ds : List MacroDef) (d : MacroDef) :
    merged? key (ds ++ [d]) = some ⟨key, .start d.seq, 0, settings (ds ++ [d])⟩ := by
  simp [merged?]

/-- **A setting is that of the last definition that has it.** -/
theorem find?_settings (name : String) : ∀ {ds : List MacroDef}, (∀ d ∈ ds, d.extras.keys.Nodup) →
    (settings ds).find? name = ds.reverse.findSome? (·.extras.find? name) := by
  intro ds
  induction ds using List.reverseRecOn with
  | nil => exact fun _ => rfl
  | append_singleton ds d ih =>
    intro h
    obtain ⟨hds, hd⟩ := List.forall_mem_append.mp h
    rw [settings_append, Keyed.find?_insertAll (hd d List.mem_cons_self), ih hds,
      List.reverse_append, List.findSome?_append]
    simp [Keyed.find?]

theorem settings_of_merged?_eq_none {key : Nat} {ds : List MacroDef} (h : merged? key ds = none) :
    settings ds = .empty := by
  rw [merged?, Option.map_eq_none_iff, List.getLast?_eq_none_iff] at h
  rw [h]
  rfl

/-- With other parameters a macro keeps the settings of its definitions. -/
theorem withSeq_of_merged? {key : Nat} {ds : List MacroDef} {m : Macro}
    (h : merged? key ds = some m) (s : ParamSeq) :
    m.withSeq s = ⟨key, .start s, 0, settings ds⟩ := by
  obtain ⟨d, -, rfl⟩ := Option.map_eq_some_iff.mp h
  rfl

/-- Where each setting of some definitions is one of a definition among them, the settings are those
of that definition. -/
theorem findSome?_extras {ds : List MacroDef} {d : MacroDef} (hd : d ∈ ds)
    (h : ∀ x ∈ ds, ∀ name v, x.extras.find? name = some v → d.extras.find? name = some v)
    (name : String) : ds.reverse.findSome? (·.extras.find? name) = d.extras.find? name := by
  cases hfind : ds.reverse.findSome? (·.extras.find? name) with
  | none => exact (List.findSome?_eq_none_iff.mp hfind d (List.mem_reverse.mpr hd)).symm
  | some v =>
    obtain ⟨x, hx, hv⟩ := List.exists_of_findSome?_eq_some hfind
    exact (h x (List.mem_reverse.mp hx) name v hv).symm

/-- Stores a macro and says under which key. -/
def store (d : MacroDef) : EStateM Error Registry Nat :=
  match d.key with
  | some key => Registry.define key d.seq
  | none => Registry.register d.seq

end MacroDef

/-! ### Registries -/

namespace Keyed

variable {α : Type}

/-- Where keys are in order, the first entry with a property is the one with the smallest key. -/
theorem find?_eq_find?_range {m : Keyed Nat α} (h : m.keys.Pairwise (· < ·)) {n : Nat}
    (hn : ∀ key ∈ m.keys, key < n) (p : α → Bool) :
    (m.toList.find? fun e => p e.2).map (·.1) =
      (List.range n).find? fun key => (m.find? key).any p := by
  have hrange : ∀ key a, m.find? key = some a → key < n := fun key a ha =>
    hn key (List.mem_map_of_mem ((mem_toList_iff h).mpr ha))
  cases hfind : m.toList.find? fun e => p e.2 with
  | none =>
    symm
    rw [Option.map_none, List.find?_eq_none]
    intro key _ hany
    cases ha : m.find? key with
    | none => simp [ha] at hany
    | some a =>
      rw [ha] at hany
      exact List.find?_eq_none.mp hfind (key, a) ((mem_toList_iff h).mpr ha) hany
  | some e =>
    obtain ⟨hp, before, after, hsplit, hbefore⟩ := List.find?_eq_some_iff_append.mp hfind
    have he : m.find? e.1 = some e.2 := by
      rw [← mem_toList_iff h, hsplit]
      exact List.mem_append_right _ List.mem_cons_self
    symm
    rw [Option.map_some, List.find?_range_eq_some]
    refine ⟨by rw [he]; exact hp, List.mem_range.mpr (hrange e.1 e.2 he), fun key hlt => ?_⟩
    -- an entry with a smaller key is before this one, so it does not have the property
    cases ha : m.find? key with
    | none => rfl
    | some a =>
      have hmem : (key, a) ∈ before ++ e :: after := by
        rw [← hsplit, mem_toList_iff h, ha]
      rw [keys, hsplit, List.map_append, List.map_cons] at h
      have hlater := (List.pairwise_cons.mp (List.pairwise_append.mp h).2.1).1
      rcases List.mem_append.mp hmem with hmem | hmem
      · exact hbefore _ hmem
      · rcases List.mem_cons.mp hmem with rfl | hmem
        · exact absurd hlt (Nat.lt_irrefl _)
        · exact absurd hlt (Nat.lt_asymm (hlater key (List.mem_map_of_mem hmem)))

end Keyed

namespace Registry

/-- The registry of an effect after some definitions. -/
structure After (ps : List Placed) (e : Effect) (r : Registry) : Prop where
  /-- The keys are in order. -/
  ordered : r.entries.keys.Pairwise (· < ·)
  /-- The keys are smaller than the next one. -/
  keys_lt : ∀ key ∈ r.entries.keys, key < r.nextKey
  /-- The next key is above those of the definitions. -/
  nextKey : r.nextKey = Placed.fresh ps e
  /-- The macros are those of the definitions. -/
  get? : ∀ key, r.get? key = MacroDef.merged? key (Placed.under ps e key)

theorem after_new (e : Effect) : (new e).After [] e :=
  ⟨List.Pairwise.nil, (fun _ h => nomatch h), rfl, fun _ => rfl⟩

section Operations

variable {ps : List Placed} {e : Effect} {r r' : Registry} {d : MacroDef} {key : Nat}

theorem After.own_key (h : r.After ps e) : ∀ x ∈ r.entries.toList, x.2.key = x.1 := by
  intro x hx
  have hm := (Keyed.mem_toList_iff h.ordered).mp hx
  rw [← Registry.get?, h.get?] at hm
  obtain ⟨d, -, hd⟩ := Option.map_eq_some_iff.mp hm
  rw [← hd]

/-- The parameters of the macros are those in force. -/
theorem After.inForce? (h : r.After ps e) (key : Nat) :
    (r.get? key).map Macro.seq = Placed.inForce? ps e key := by
  rw [h.get?, MacroDef.merged?, Placed.inForce?, Option.map_map]
  rfl

/-- Where parameters are in force there is a macro with them, and with the settings of all
definitions under the key. -/
theorem After.exists_of_inForce? (h : r.After ps e) {s : ParamSeq}
    (hforce : Placed.inForce? ps e key = some s) :
    ∃ m, r.get? key = some m ∧ m.seq = s ∧
      m.extras = MacroDef.settings (Placed.under ps e key) := by
  obtain ⟨last, hlast, rfl⟩ := Option.map_eq_some_iff.mp hforce
  refine ⟨⟨key, .start last.seq, 0, MacroDef.settings (Placed.under ps e key)⟩, ?_, rfl, rfl⟩
  rw [h.get?, MacroDef.merged?, hlast, Option.map_some]

/-- Equal parameters are found under the smallest key where they are in force. -/
theorem After.find? (h : r.After ps e) (s : ParamSeq) :
    r.find? s = (List.range (Placed.fresh ps e)).find? fun key =>
      Placed.inForce? ps e key = some s := by
  have hfind := Keyed.find?_eq_find?_range h.ordered h.keys_lt fun m => m.seq = s
  rw [h.nextKey] at hfind
  rw [find?_eq_of_own_key h.own_key, hfind]
  congr 1
  funext key
  rw [← h.inForce? key]
  cases hget : r.entries.find? key with
  | none => simp [Registry.get?, hget]
  | some m => simp [Registry.get?, hget]

/-- A macro is stored under a key: it has the settings that are there, and all other keys have what
they had. -/
theorem define_eq_ok {s : ParamSeq} {key' : Nat} (hr : r.After ps e)
    (h : define key s r = .ok key' r') :
    key' = key ∧ r'.nextKey = max r.nextKey (key + 1) ∧ r'.entries.keys.Pairwise (· < ·) ∧
      (∀ k ∈ r'.entries.keys, k < r'.nextKey) ∧
      ∀ k, r'.get? k =
        if key = k then some ⟨key, .start s, 0, MacroDef.settings (Placed.under ps e key)⟩
        else r.get? k := by
  unfold define at h
  split at h
  · cases h
  · cases h
    refine ⟨rfl, rfl, Keyed.ordered_insertInto hr.ordered, fun k hk => ?_, fun k => ?_⟩
    · rcases Keyed.mem_keys_insertInto hk with rfl | hk
      · exact Nat.le_max_right _ _
      · exact Nat.lt_of_lt_of_le (hr.keys_lt k hk) (Nat.le_max_left _ _)
    · rw [Registry.get?, Keyed.find?_insert]
      by_cases hk : key = k
      · rw [if_pos hk, if_pos hk]
        have hentry := hr.get? key
        cases hget : r.get? key with
        | none =>
          rw [hget] at hentry
          rw [MacroDef.settings_of_merged?_eq_none hentry.symm]
          rfl
        | some m =>
          rw [hget] at hentry
          rw [← MacroDef.withSeq_of_merged? hentry.symm]
      · rw [if_neg hk, if_neg hk]
        rfl

/-- **A definition is stored under the key for it.**  Then the macro there has its parameters and
the settings of the definitions before it. -/
theorem store_eq_ok (hr : r.After ps d.effect) (h : d.store r = .ok key r') :
    key = Placed.keyFor ps d ∧ r'.nextKey = max r.nextKey (key + 1) ∧
      r'.entries.keys.Pairwise (· < ·) ∧ (∀ k ∈ r'.entries.keys, k < r'.nextKey) ∧
      ∀ k, r'.get? k =
        if key = k then
          some ⟨key, .start d.seq, 0, MacroDef.settings (Placed.under ps d.effect key)⟩
        else r.get? k := by
  unfold MacroDef.store at h
  cases hd : d.key with
  | some key₀ =>
    simp only [hd] at h
    obtain ⟨rfl, hrest⟩ := define_eq_ok hr h
    exact ⟨by simp [Placed.keyFor, hd], hrest⟩
  | none =>
    simp only [hd, register, hr.find?] at h
    cases hfind : (List.range (Placed.fresh ps d.effect)).find? fun k =>
        Placed.inForce? ps d.effect k = some d.seq with
    | none =>
      simp only [hfind] at h
      obtain ⟨rfl, hrest⟩ := define_eq_ok hr h
      exact ⟨by simp [Placed.keyFor, hd, hfind, hr.nextKey], hrest⟩
    | some key₀ =>
      simp only [hfind] at h
      cases h
      -- the macro that is found has the parameters already, so nothing changes
      have hforce : Placed.inForce? ps d.effect key = some d.seq := by
        simpa using List.find?_some hfind
      have hlt : key < Placed.fresh ps d.effect :=
        List.mem_range.mp (List.mem_of_find?_eq_some hfind)
      refine ⟨by simp [Placed.keyFor, hd, hfind], ?_, hr.ordered, hr.keys_lt, fun k => ?_⟩
      · rw [hr.nextKey]
        omega
      · by_cases hk : key = k
        · subst hk
          rw [if_pos rfl, hr.get?, MacroDef.merged?]
          obtain ⟨last, hlast, hseq⟩ := Option.map_eq_some_iff.mp hforce
          rw [hlast, Option.map_some, hseq]
        · rw [if_neg hk]

/-- Settings are added to those of the macro under a key. -/
theorem setExtras_eq_ok : ∀ {es : List (String × Param)} {r r' : Registry},
    (es.forM fun x => setExtra key x.1 x.2) r = .ok () r' →
      r'.nextKey = r.nextKey ∧ r'.entries.keys = r.entries.keys ∧
      ∀ k, r'.get? k = if key = k then (r.get? k).map fun m =>
          { m with extras := es.foldl (fun xs x => xs.insert x.1 x.2) m.extras }
        else r.get? k := by
  intro es
  induction es with
  | nil =>
    intro r r' h
    cases h
    refine ⟨rfl, rfl, fun k => ?_⟩
    split <;> simp
  | cons x es ih =>
    intro r r' h
    obtain ⟨r₁, hfirst, hrest⟩ := forM_cons_eq_ok h
    obtain ⟨hnext, hkeys, hget⟩ := ih hrest
    unfold setExtra update at hfirst
    split at hfirst
    · cases hfirst
      refine ⟨hnext, hkeys.trans (Keyed.keys_modify _ _ _), fun k => ?_⟩
      rw [hget, Registry.get?, Keyed.find?_modify]
      by_cases hk : key = k
      · rw [if_pos hk, if_pos hk, if_pos hk, Option.map_map]
        rfl
      · rw [if_neg hk, if_neg hk, if_neg hk]
        rfl
    · cases hfirst

/-- One more definition. -/
theorem After.place (hr : r.After ps d.effect) (hstore : d.store r = .ok key r') {r'' : Registry}
    (hextras : (d.extras.toList.forM fun x => setExtra key x.1 x.2) r' = .ok () r'') :
    r''.After (Placed.place ps d) d.effect := by
  obtain ⟨hkey, hnext, hordered, hlt, hget⟩ := store_eq_ok hr hstore
  obtain ⟨hnext', hkeys', hget'⟩ := setExtras_eq_ok hextras
  subst hkey
  refine ⟨by rw [hkeys']; exact hordered, by rw [hkeys', hnext']; exact hlt, ?_, fun k => ?_⟩
  · rw [hnext', hnext, hr.nextKey, Placed.fresh_place, if_pos rfl]
  · rw [hget', hget, Placed.under_place]
    by_cases hk : Placed.keyFor ps d = k
    · subst hk
      rw [if_pos rfl, if_pos rfl, if_pos ⟨rfl, rfl⟩, MacroDef.merged?_append,
        MacroDef.settings_append]
      rfl
    · rw [if_neg hk, if_neg hk, if_neg fun h => hk h.2, hr.get?]

/-- A definition for another effect. -/
theorem After.place_other (hr : r.After ps e) (he : d.effect ≠ e) :
    r.After (Placed.place ps d) e := by
  refine ⟨hr.ordered, hr.keys_lt, ?_, fun k => ?_⟩
  · rw [hr.nextKey, Placed.fresh_place, if_neg he]
  · rw [hr.get?, Placed.under_place, if_neg fun h => he h.1]

end Operations

end Registry

/-! ### Sessions -/

namespace Session

variable {ps : List Placed} {s s' : Session} {d : MacroDef}

/-- The registries after some definitions. -/
def After (ps : List Placed) (s : Session) : Prop := ∀ e, (s.macros.get e).After ps e

theorem after_new (o : Options) : (new o).After [] := by
  intro e
  rw [new, MacroBank.get_new]
  exact Registry.after_new e

theorem onMacros_eq_ok {α : Type} {e : Effect} {act : EStateM Error Registry α} {a : α}
    (h : onMacros e act s = .ok a s') :
    ∃ r, act (s.macros.get e) = .ok a r ∧ s' = { s with macros := s.macros.set e r } := by
  unfold onMacros MacroBank.on at h
  cases hact : act (s.macros.get e) with
  | error err r =>
    rw [hact] at h
    cases h
  | ok b r =>
    rw [hact] at h
    cases h
    exact ⟨r, rfl, rfl⟩

/-- A definition is stored, and then its settings are set. -/
theorem defineMacro_eq_ok (h : defineMacro d s = .ok () s') :
    ∃ key r r', d.store (s.macros.get d.effect) = .ok key r ∧
      (d.extras.toList.forM fun x => Registry.setExtra key x.1 x.2) r = .ok () r' ∧
      s' = { s with macros := s.macros.set d.effect r' } := by
  obtain ⟨r', hact, hs'⟩ := onMacros_eq_ok h
  have hbind : (d.store >>= fun key => d.extras.toList.forM fun x => Registry.setExtra key x.1 x.2)
      (s.macros.get d.effect) = .ok () r' := by
    rw [← hact, MacroDef.store]
    cases d.key <;> rfl
  obtain ⟨key, r, hstore, hextras⟩ := bind_eq_ok hbind
  exact ⟨key, r, r', hstore, hextras, hs'⟩

/-- **The registries after one more definition.** -/
theorem defineMacro_after (hs : s.After ps) (h : defineMacro d s = .ok () s') :
    s'.After (Placed.place ps d) := by
  obtain ⟨key, r, r', hstore, hextras, rfl⟩ := defineMacro_eq_ok h
  intro e
  rw [MacroBank.get_set]
  by_cases he : d.effect = e
  · subst he
    rw [if_pos rfl]
    exact (hs d.effect).place hstore hextras
  · rw [if_neg he]
    exact (hs e).place_other he

/-- **The registries after more definitions.** -/
theorem defineMacros_after : ∀ {ds : List MacroDef} {ps : List Placed} {s s' : Session},
    s.After ps → defineMacros ds s = .ok () s' → s'.After (Placed.placeAll ps ds) := by
  intro ds
  induction ds with
  | nil =>
    intro ps s s' hs h
    cases h
    exact hs
  | cons d ds ih =>
    intro ps s s' hs h
    obtain ⟨s₁, hfirst, hrest⟩ := forM_cons_eq_ok h
    exact ih (defineMacro_after hs hfirst) hrest

end Session

/-! ### Definitions that meet under a key -/

/-- A macro plays by its parameters and settings. -/
theorem Player.enable_congr {m m' : Macro} (hseq : m.seq = m'.seq)
    (hextras : ∀ name, m.extras.find? name = m'.extras.find? name) (p : Player) (e : Effect)
    (operand : UInt8) : p.enable e operand m = p.enable e operand m' := by
  have hset : ∀ name, isSet m name = isSet m' name := fun name => by rw [isSet, isSet, hextras]
  have hoperator : operatorOf? m = operatorOf? m' := by rw [operatorOf?, operatorOf?, hextras]
  rw [enable, enable, hset, hset, hoperator, hseq]

/-- **What is under the key of a definition.**  The key may be chosen again later, but as long as it
is not, the macro under it has the parameters of the definition.  Its settings are those of all
definitions that got the key, of which later ones win.  If each of these settings is one of the
definition, the macro has the settings of the definition, and plays as it asks for. -/
theorem define_keeps_parameters {o : Options} {before after : List MacroDef} {d : MacroDef}
    {s : Session} (h : Session.defineMacros (before ++ d :: after) (.new o) = .ok () s)
    (hmaps : ∀ x ∈ before ++ d :: after, x.extras.keys.Nodup) :
    ∃ s₀ key r, Session.defineMacros before (.new o) = .ok () s₀ ∧
      d.store (s₀.macros.get d.effect) = .ok key r ∧
      ((∀ x ∈ after, x.effect = d.effect → x.key ≠ some key) →
        ∃ m, (s.macros.get d.effect).get? key = some m ∧ m.seq = d.seq ∧
          let sharing := Placed.under (placements (before ++ d :: after)) d.effect key
          d ∈ sharing ∧
          (∀ name, m.extras.find? name = sharing.reverse.findSome? (·.extras.find? name)) ∧
          ((∀ x ∈ sharing, ∀ name v, x.extras.find? name = some v → d.extras.find? name = some v) →
            (∀ name, m.extras.find? name = d.extras.find? name) ∧
            ∀ (p : Player) operand,
              p.enable d.effect operand m =
                p.enable d.effect operand ⟨key, .start d.seq, 0, d.extras⟩)) := by
  obtain ⟨s₀, hbefore, hrest⟩ := forM_append_eq_ok h
  obtain ⟨s₁, hd, -⟩ := forM_cons_eq_ok hrest
  obtain ⟨key, r, -, hstore, -⟩ := Session.defineMacro_eq_ok hd
  have hkey := (Registry.store_eq_ok
    (Session.defineMacros_after (Session.after_new o) hbefore d.effect) hstore).1
  refine ⟨s₀, key, r, hbefore, hstore, fun hafter => ?_⟩
  -- the parameters are in force right after the definition, and so to the end
  have hforce : Placed.inForce? (placements (before ++ d :: after)) d.effect key = some d.seq := by
    rw [placements_append]
    refine Placed.inForce?_placeAll ?_ hafter
    rw [hkey]
    exact Placed.inForce?_place_self _ d
  obtain ⟨m, hget, hseq, hextras⟩ :=
    (Session.defineMacros_after (Session.after_new o) h d.effect).exists_of_inForce? hforce
  have hmem : d ∈ Placed.under (placements (before ++ d :: after)) d.effect key := by
    rw [hkey]
    exact mem_under_placements before d after
  have hsettings : ∀ name, m.extras.find? name =
      (Placed.under (placements (before ++ d :: after)) d.effect key).reverse.findSome?
        (·.extras.find? name) := by
    intro name
    rw [hextras]
    exact MacroDef.find?_settings name fun x hx => hmaps x (mem_of_mem_under_placements hx)
  refine ⟨m, hget, hseq, hmem, hsettings, fun hsub => ?_⟩
  have hown : ∀ name, m.extras.find? name = d.extras.find? name := fun name =>
    (hsettings name).trans (MacroDef.findSome?_extras hmem hsub name)
  exact ⟨hown, fun p operand => Player.enable_congr hseq hown p d.effect operand⟩

/-- A macro without a key, after one with a key and before a macro that shares its parameters and
settings. -/
theorem define_keeps_parameters_shared :
    let first : MacroDef := ⟨.arpeggio, some 3, ⟨[.int 0, .int 4], []⟩, .empty⟩
    let d : MacroDef :=
      ⟨.arpeggio, none, ⟨[.int 0, .int 4, .int 7], [.int 12]⟩, .ofList [("cumulative", .int 1)]⟩
    ∃ s, Session.defineMacros ([first] ++ d :: [first, d]) (.new .default) = .ok () s ∧
      ∃ m, (s.macros.get .arpeggio).get? 4 = some m ∧ m.seq = d.seq ∧
        ∀ name, m.extras.find? name = d.extras.find? name := by
  intro first d
  have hkey : (match Session.defineMacros [first] (.new .default) with
      | .ok _ s₀ =>
        match d.store (s₀.macros.get d.effect) with
        | .ok key _ => some key
        | .error _ _ => none
      | .error _ _ => none) = some 4 := by
    decide +kernel
  have hrun : (match Session.defineMacros ([first] ++ d :: [first, d]) (.new .default) with
      | .ok _ _ => true
      | .error _ _ => false) = true := by
    decide +kernel
  cases hds : Session.defineMacros ([first] ++ d :: [first, d]) (.new .default) with
  | error e s =>
    rw [hds] at hrun
    exact absurd hrun Bool.false_ne_true
  | ok u s =>
    obtain ⟨s₀, key, r, hbefore, hstore, hlast⟩ := define_keeps_parameters hds (by decide +kernel)
    have hkey : key = 4 := by
      simpa only [hbefore, hstore, Option.some.injEq] using hkey
    subst hkey
    obtain ⟨m, hget, hseq, -, -, hsub⟩ := hlast (by decide +kernel)
    refine ⟨s, rfl, m, hget, hseq, (hsub fun x hx name v hv => ?_).1⟩
    have hx := mem_of_mem_under_placements hx
    simp only [List.cons_append, List.nil_append, List.mem_cons, List.not_mem_nil] at hx
    rcases hx with rfl | rfl | rfl | rfl | hx
    · cases hv
    · exact hv
    · cases hv
    · exact hv
    · cases hx

/-- A definition can take the place of another one that has more settings, or share its parameters,
and then does not play as it asks for. -/
theorem not_define_keeps_settings :
    let cumulative : Keyed String Param := .ofList [("cumulative", .int 1)]
    let trace (ds : List MacroDef) : Option (Array Int) :=
      match Session.defineMacros ds (.new .default) with
      | .ok _ s =>
        (play s.macros 1 4 [.effectOn .arpeggio 0, .note 0 3]).toOption.map (·.pitchTrace)
      | .error _ _ => none
    trace [⟨.arpeggio, some 0, ⟨[.int 1, .int 2], []⟩, .empty⟩] = some #[49, 50, 50] ∧
      trace [⟨.arpeggio, some 0, ⟨[.int 0, .int 4], []⟩, cumulative⟩,
        ⟨.arpeggio, some 0, ⟨[.int 1, .int 2], []⟩, .empty⟩] = some #[49, 51, 53] ∧
      trace [⟨.arpeggio, none, ⟨[.int 1, .int 2], []⟩, .empty⟩] = some #[49, 50, 50] ∧
      trace [⟨.arpeggio, none, ⟨[.int 1, .int 2], []⟩, .empty⟩,
        ⟨.arpeggio, none, ⟨[.int 1, .int 2], []⟩, cumulative⟩] = some #[49, 51, 53] := by
  decide +kernel

end Chiptune
