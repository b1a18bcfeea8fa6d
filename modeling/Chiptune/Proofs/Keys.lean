import Chiptune.Proofs.Definitions

/-!
# Keys of macros

A registry serves requests, one after the other, and some of them fail.  Whatever is asked of it,
its keys stay in order and small enough for an operand, each macro stays under its own key, and the
next key is the one after the largest.

So a macro can be registered unless there is no key left, and it does not disturb the others.  Its
key is the smallest one with its parameters, if they are there, and otherwise one above all keys in
use.  While macros are only registered, that stays so: the key of some parameters is always the
same, and other parameters have another key.

## Main definitions

* `Registry.Request`, `Registry.serveAll` — what can be asked of a registry, and what is left of it.
* `Registry.InOrder` — what is true of the keys of a registry.
* `Registry.registerAll` — the outcomes of registering one macro after the other.

## Main results

* `Registry.register_cases` — the three outcomes of registering a macro.
* `Registry.serve_cases` — all that a request can do.
* `Registry.inOrder_serveAll` — every registry is in order.
* `register_keys` — the keys of a registry, and that equal macros share them.
-/

namespace Chiptune

theorem Keyed.mem_keys_insert_iff {α : Type} {m : Keyed Nat α} {key key' : Nat} {a : α} :
    key' ∈ (m.insert key a).keys ↔ key = key' ∨ key' ∈ m.keys := by
  rw [← contains_iff_mem_keys, ← contains_iff_mem_keys, contains, contains, find?_insert]
  by_cases h : key = key' <;> simp [h]

namespace Registry

/-! ### Requests -/

/-- Something that is asked of a registry. -/
inductive Request where
  /-- To store a macro under a key. -/
  | define (key : Nat) (s : ParamSeq)
  /-- To store a macro. -/
  | register (s : ParamSeq)
  /-- To count a reference. -/
  | addRef (key : Nat)
  /-- To set a setting. -/
  | setExtra (key : Nat) (name : String) (value : Param)
  /-- To read the next parameter of a macro. -/
  | advance (key : Nat)
  /-- To pack all macros. -/
  | pack (f : ParamSeq → Except Error ParamSeq)

/-- What a request leaves of a registry, whether it succeeds or not. -/
def serve (r : Registry) : Request → Registry
  | .define key s => (define key s r).state
  | .register s => (register s r).state
  | .addRef key => (addRef key r).state
  | .setExtra key name value => (setExtra key name value r).state
  | .advance key => (advance key r).2
  | .pack f => (pack f r).state

/-- What requests leave of a registry. -/
def serveAll (r : Registry) (qs : List Request) : Registry := qs.foldl serve r

/-- The parameters that a request stores, and their key. -/
def Request.stores? (r : Registry) : Request → Option (Nat × ParamSeq)
  | .define key s => if maxKey < key then none else some (key, s)
  | .register s =>
    if (r.find? s).isSome ∨ maxKey < r.nextKey then none else some (r.nextKey, s)
  | _ => none

/-- **Registering a macro** finds it, stores it under the next key, or fails since no key is
left. -/
theorem register_cases (s : ParamSeq) (r : Registry) :
    (∃ key, r.find? s = some key ∧ register s r = .ok key r) ∨
      (r.find? s = none ∧ r.nextKey ≤ maxKey ∧
        register s r = .ok r.nextKey (r.put r.nextKey s)) ∨
      (r.find? s = none ∧ maxKey < r.nextKey ∧
        register s r = .error (.registryFull r.effect) r) := by
  rw [register]
  cases hfind : r.find? s with
  | some key => exact .inl ⟨key, rfl, rfl⟩
  | none =>
    simp only [define_eq]
    by_cases hkey : maxKey < r.nextKey
    · exact .inr (.inr ⟨trivial, hkey, if_pos hkey⟩)
    · exact .inr (.inl ⟨trivial, Nat.le_of_not_lt hkey, if_neg hkey⟩)

theorem seq_advance (h : Playhead) : h.advance.seq = h.seq := by
  unfold Playhead.advance
  split
  · rfl
  · split
    · rfl
    · split <;> rfl

theorem state_update (key : Nat) (f : Macro → Macro) (r : Registry) :
    (update key f r).state = { r with entries := r.entries.modify key f } ∨
      (update key f r).state = r := by
  unfold update
  split
  · exact .inl rfl
  · exact .inr rfl

/-- **All that a request can do**: it stores parameters, it changes something of a macro that is
neither its key nor its parameters, it packs macros up to one that cannot be packed, or it does
nothing. -/
theorem serve_cases (r : Registry) (q : Request) :
    (∃ key s, q.stores? r = some (key, s) ∧ key ≤ maxKey ∧ r.serve q = r.put key s) ∨
      (q.stores? r = none ∧ ∃ key f,
        ((∀ m, Macro.seq (f m) = m.seq) ∧ ∀ m, Macro.key (f m) = m.key) ∧
        r.serve q = { r with entries := r.entries.modify key f }) ∨
      (q.stores? r = none ∧ ∃ f, q = .pack f ∧ r.packed = false ∧
        r.serve q = { r with
          entries := ⟨(packEntries f r.entries.toList).2⟩
          packed := (packEntries f r.entries.toList).1.isNone }) ∨
      (q.stores? r = none ∧ r.serve q = r) := by
  cases q with
  | define key s =>
    -- it stores them unless the key is too large
    rw [serve, define_eq]
    by_cases hkey : maxKey < key
    · rw [if_pos hkey]
      exact .inr (.inr (.inr ⟨if_pos hkey, rfl⟩))
    · rw [if_neg hkey]
      exact .inl ⟨key, s, if_neg hkey, Nat.le_of_not_lt hkey, rfl⟩
  | register s =>
    -- it stores them unless they are there, or no key is left
    rw [serve]
    rcases register_cases s r with ⟨key, hfind, heq⟩ | ⟨hfind, hkey, heq⟩ | ⟨-, hkey, heq⟩
    · rw [heq]
      exact .inr (.inr (.inr ⟨if_pos (.inl (by rw [hfind]; rfl)), rfl⟩))
    · rw [heq]
      refine .inl ⟨r.nextKey, s, if_neg ?_, hkey, rfl⟩
      rintro (hsome | hfull)
      · rw [hfind] at hsome
        cases hsome
      · omega
    · rw [heq]
      exact .inr (.inr (.inr ⟨if_pos (.inr hkey), rfl⟩))
  | addRef key =>
    -- the next three change a macro, if it is there
    rcases state_update key (fun m => { m with refCount := m.refCount + 1 }) r with h | h
    · refine .inr (.inl ⟨rfl, key, _, ?_, h⟩)
      exact ⟨fun _ => rfl, fun _ => rfl⟩
    · exact .inr (.inr (.inr ⟨rfl, h⟩))
  | setExtra key name value =>
    rcases state_update key (fun m => { m with extras := m.extras.insert name value }) r with h | h
    · refine .inr (.inl ⟨rfl, key, _, ?_, h⟩)
      exact ⟨fun _ => rfl, fun _ => rfl⟩
    · exact .inr (.inr (.inr ⟨rfl, h⟩))
  | advance key =>
    rw [serve, advance]
    cases r.get? key with
    | none => exact .inr (.inr (.inr ⟨rfl, rfl⟩))
    | some m =>
      refine .inr (.inl ⟨rfl, key, _, ?_, rfl⟩)
      exact ⟨fun m => seq_advance m.head, fun _ => rfl⟩
  | pack f =>
    -- it does nothing where macros are packed already
    rw [serve, pack]
    cases hpacked : r.packed with
    | true => exact .inr (.inr (.inr ⟨rfl, rfl⟩))
    | false =>
      refine .inr (.inr (.inl ⟨rfl, f, rfl, rfl, ?_⟩))
      cases packEntries f r.entries.toList with
      | mk error es => cases error <;> simp [EStateM.Result.state]

/-! ### Keys in order -/

/-- A registry in order, with the next key after the largest. -/
structure InOrder (e : Effect) (r : Registry) : Prop extends Tidy e r where
  /-- The keys are smaller than the next one. -/
  keys_lt : ∀ key ∈ r.entries.keys, key < r.nextKey
  /-- The next key is the first one, or it follows one in use. -/
  follows : r.nextKey = 0 ∨ ∃ key ∈ r.entries.keys, r.nextKey = key + 1

theorem inOrder_new (e : Effect) : InOrder e (.new e) :=
  ⟨tidy_new e, (fun _ h => nomatch h), .inl rfl⟩

variable {e : Effect} {r : Registry} {key : Nat} {s : ParamSeq}

namespace InOrder

/-- Where the keys and the next one are the same, it is enough that the registry is tidy. -/
theorem congr {r' : Registry} (h : InOrder e r) (htidy : Tidy e r')
    (hkeys : r'.entries.keys = r.entries.keys) (hnext : r'.nextKey = r.nextKey) : InOrder e r' :=
  ⟨htidy, by rw [hkeys, hnext]; exact h.keys_lt, by rw [hkeys, hnext]; exact h.follows⟩

theorem put (h : InOrder e r) (hkey : key ≤ maxKey) (s : ParamSeq) : InOrder e (r.put key s) := by
  refine ⟨h.toTidy.put hkey s, fun key' hkey' => ?_, .inr ?_⟩
  · change key' < max r.nextKey (key + 1)
    rcases Keyed.mem_keys_insert_iff.mp hkey' with rfl | hkey'
    · omega
    · have := h.keys_lt key' hkey'
      omega
  · -- the largest key is the new one, or it is the largest as before
    change ∃ key' ∈ (r.entries.insert key _).keys, max r.nextKey (key + 1) = key' + 1
    rcases Nat.lt_or_ge (key + 1) r.nextKey with hlt | hge
    · rcases h.follows with hzero | ⟨key', hkey', hnext⟩
      · omega
      · exact ⟨key', Keyed.mem_keys_insert_iff.mpr (.inr hkey'), by omega⟩
    · exact ⟨key, Keyed.mem_keys_insert_iff.mpr (.inl rfl), by omega⟩

/-- **A request leaves a registry in order.** -/
theorem serve (h : InOrder e r) (q : Request) : InOrder e (r.serve q) := by
  rcases serve_cases r q with ⟨key, s, -, hkey, hput⟩ | ⟨-, key, f, ⟨-, hf⟩, hmodify⟩ |
    ⟨-, f, -, -, hpack⟩ | ⟨-, hsame⟩
  · rw [hput]
    exact h.put hkey s
  · rw [hmodify]
    exact h.congr (h.toTidy.modify hf) (Keyed.keys_modify _ _ _) rfl
  · rw [hpack]
    exact h.congr (h.toTidy.packEntries f _) (keys_packEntries f _) rfl
  · rw [hsame]
    exact h

theorem nextKey_le (h : InOrder e r) : r.nextKey ≤ maxKey + 1 := by
  rcases h.follows with hzero | ⟨key, hkey, hnext⟩
  · omega
  · have := h.keys_le key hkey
    omega

end InOrder

theorem InOrder.serveAll (h : InOrder e r) (qs : List Request) : InOrder e (r.serveAll qs) := by
  induction qs generalizing r with
  | nil => exact h
  | cons q qs ih => exact ih (h.serve q)

/-- **Every registry is in order**, whatever was asked of it. -/
theorem inOrder_serveAll (e : Effect) (qs : List Request) : InOrder e ((new e).serveAll qs) :=
  (inOrder_new e).serveAll qs

/-! ### Registering -/

theorem seq?_put (r : Registry) (key : Nat) (s : ParamSeq) (key' : Nat) :
    (r.put key s).seq? key' = if key = key' then some s else r.seq? key' := by
  rw [seq?, get?, put, Keyed.find?_insert]
  by_cases h : key = key'
  · rw [if_pos h, if_pos h]
    cases r.get? key <;> rfl
  · rw [if_neg h, if_neg h]
    rfl

theorem get?_put_of_ne {key' : Nat} (h : key ≠ key') (s : ParamSeq) :
    (r.put key s).get? key' = r.get? key' := by
  rw [get?, put, Keyed.find?_insert, if_neg h]
  rfl

namespace InOrder

theorem mem_toList_iff (h : InOrder e r) {m : Macro} :
    (key, m) ∈ r.entries.toList ↔ r.get? key = some m := Keyed.mem_toList_iff h.ordered

theorem lt_of_get? (h : InOrder e r) {m : Macro} (hm : r.get? key = some m) :
    key ≤ maxKey ∧ key < r.nextKey := by
  have hmem : key ∈ r.entries.keys := List.mem_map_of_mem (h.mem_toList_iff.mpr hm)
  exact ⟨h.keys_le key hmem, h.keys_lt key hmem⟩

/-- There is a next key unless the largest one is in use. -/
theorem maxKey_lt_nextKey_iff (h : InOrder e r) :
    maxKey < r.nextKey ↔ ∃ m, r.get? maxKey = some m := by
  constructor
  · intro hlt
    rcases h.follows with hzero | ⟨key, hkey, hnext⟩
    · omega
    · have hle := h.keys_le key hkey
      obtain rfl : key = maxKey := by omega
      obtain ⟨x, hx, hfst⟩ := List.mem_map.mp hkey
      exact ⟨x.2, h.mem_toList_iff.mp (by rw [← hfst]; exact hx)⟩
  · rintro ⟨m, hm⟩
    exact (h.lt_of_get? hm).2

/-- Equal parameters are found under the smallest key with them. -/
theorem find?_eq_some_iff (h : InOrder e r) :
    r.find? s = some key ↔ r.seq? key = some s ∧ ∀ key', r.seq? key' = some s → key ≤ key' := by
  have hany : ∀ key,
      (r.entries.find? key).any (fun m => m.seq = s) = true ↔ r.seq? key = some s := by
    intro key
    rw [seq?, get?]
    cases r.entries.find? key <;> simp
  rw [find?_eq_of_own_key h.own_key,
    Keyed.find?_eq_find?_range h.ordered h.keys_lt fun m => m.seq = s, List.find?_range_eq_some]
  constructor
  · rintro ⟨hkey, -, hsmaller⟩
    refine ⟨(hany key).mp hkey, fun key' hkey' => Nat.le_of_not_lt fun hlt => ?_⟩
    have hnot := hsmaller key' hlt
    rw [(hany key').mpr hkey'] at hnot
    cases hnot
  · rintro ⟨hkey, hsmallest⟩
    obtain ⟨m, hm, -⟩ := Option.map_eq_some_iff.mp hkey
    refine ⟨(hany key).mpr hkey, List.mem_range.mpr (h.lt_of_get? hm).2, fun key' hlt => ?_⟩
    rw [Bool.not_eq_true', Bool.eq_false_iff]
    intro hkey'
    exact absurd (hsmallest key' ((hany key').mp hkey')) (Nat.not_le_of_lt hlt)

theorem find?_eq_none_iff (h : InOrder e r) : r.find? s = none ↔ ∀ key, r.seq? key ≠ some s := by
  rw [Registry.find?, Option.map_eq_none_iff, List.find?_eq_none]
  constructor
  · intro hnone key hkey
    obtain ⟨m, hm, hs⟩ := Option.map_eq_some_iff.mp hkey
    exact hnone (key, m) (h.mem_toList_iff.mpr hm) (decide_eq_true hs)
  · intro hnone x hx hs
    exact hnone x.1 (Option.map_eq_some_iff.mpr ⟨x.2, h.mem_toList_iff.mp hx, of_decide_eq_true hs⟩)

/-- **Registering fails** exactly if the parameters are new and no key is left; it changes nothing
then. -/
theorem register_eq_error_iff (h : InOrder e r) {err : Error} {r' : Registry} :
    register s r = .error err r' ↔
      ((∀ key, r.seq? key ≠ some s) ∧ ∃ m, r.get? maxKey = some m) ∧
        err = .registryFull e ∧ r' = r := by
  rw [← h.find?_eq_none_iff, ← h.maxKey_lt_nextKey_iff]
  rcases register_cases s r with ⟨key, hfind, heq⟩ | ⟨hfind, hkey, heq⟩ | ⟨hfind, hkey, heq⟩
  · simp [heq, hfind]
  · simp [heq, Nat.not_lt_of_le hkey]
  · rw [heq, h.effect]
    constructor
    · intro h
      cases h
      exact ⟨⟨hfind, hkey⟩, rfl, rfl⟩
    · rintro ⟨-, rfl, rfl⟩
      rfl

/-- **Registering shares a key or takes a new one**, and leaves all other macros alone. -/
theorem register_eq_ok (h : InOrder e r) {r' : Registry} (hs : register s r = .ok key r') :
    r'.seq? key = some s ∧ (∀ key' m, r.get? key' = some m → r'.get? key' = some m) ∧
      ((r.seq? key = some s ∧ ∀ key', r.seq? key' = some s → key ≤ key') ∨
        ((∀ key', r.seq? key' ≠ some s) ∧ ∀ key' m, r.get? key' = some m → key' < key)) := by
  rcases register_cases s r with ⟨key', hfind, heq⟩ | ⟨hfind, -, heq⟩ | ⟨-, -, heq⟩
  · rw [heq] at hs
    cases hs
    have hkey := h.find?_eq_some_iff.mp hfind
    exact ⟨hkey.1, fun _ _ hm => hm, .inl hkey⟩
  · rw [heq] at hs
    cases hs
    have hlt : ∀ key' m, r.get? key' = some m → key' < r.nextKey :=
      fun key' m hm => (h.lt_of_get? hm).2
    refine ⟨by rw [seq?_put, if_pos rfl], fun key' m hm => ?_,
      .inr ⟨h.find?_eq_none_iff.mp hfind, hlt⟩⟩
    rw [get?_put_of_ne (Nat.ne_of_gt (hlt key' m hm))]
    exact hm
  · rw [heq] at hs
    cases hs

/-- Under the next key, new parameters are found. -/
theorem find?_put_nextKey (h : InOrder e r) (hs : r.find? s = none) (hkey : r.nextKey ≤ maxKey) :
    (r.put r.nextKey s).find? s = some r.nextKey := by
  rw [(h.put hkey s).find?_eq_some_iff]
  refine ⟨by rw [seq?_put, if_pos rfl], fun key' hkey' => ?_⟩
  rw [seq?_put] at hkey'
  split at hkey'
  · next heq => exact Nat.le_of_eq heq
  · exact absurd hkey' (h.find?_eq_none_iff.mp hs key')

/-- Parameters that are registered are found under their key. -/
theorem find?_of_register (h : InOrder e r) {r' : Registry} (hs : register s r = .ok key r') :
    r'.find? s = some key := by
  rcases register_cases s r with ⟨key', hfind, heq⟩ | ⟨hfind, hkey, heq⟩ | ⟨-, -, heq⟩
  · rw [heq] at hs
    cases hs
    exact hfind
  · rw [heq] at hs
    cases hs
    exact h.find?_put_nextKey hfind hkey
  · rw [heq] at hs
    cases hs

/-- Registering other macros does not change where parameters are found. -/
theorem find?_serve_register (h : InOrder e r) (hs : r.find? s = some key) (s' : ParamSeq) :
    (r.serve (.register s')).find? s = some key := by
  rw [Registry.serve]
  rcases register_cases s' r with ⟨key', -, heq⟩ | ⟨-, hkey, heq⟩ | ⟨-, -, heq⟩
  · rw [heq]
    exact hs
  · rw [heq]
    obtain ⟨hseq, hsmallest⟩ := h.find?_eq_some_iff.mp hs
    obtain ⟨m, hm, -⟩ := Option.map_eq_some_iff.mp hseq
    have hlt := (h.lt_of_get? hm).2
    refine (h.put hkey s').find?_eq_some_iff.mpr ⟨?_, fun key' hkey' => ?_⟩
    · rw [seq?_put, if_neg (Nat.ne_of_gt hlt)]
      exact hseq
    · -- the new key is larger than those before it
      rw [seq?_put] at hkey'
      split at hkey'
      · next hnext => omega
      · exact hsmallest key' hkey'
  · rw [heq]
    exact hs

end InOrder

/-- The outcomes of registering macros, one after the other. -/
def registerAll (r : Registry) : List ParamSeq → List (Except Error Nat)
  | [] => []
  | s :: ss => (register s r).outcome :: registerAll (r.serve (.register s)) ss

/-- Parameters are found under their key as long as macros are only registered. -/
theorem InOrder.find?_serveAll_register (ss : List ParamSeq) :
    ∀ {r : Registry}, InOrder e r → r.find? s = some key →
      (r.serveAll (ss.map .register)).find? s = some key := by
  induction ss with
  | nil => exact fun _ hs => hs
  | cons s' ss ih => exact fun h hs => ih (h.serve _) (h.find?_serve_register hs s')

/-- **All parameters that were registered are found in the end**, under the keys that they got. -/
theorem InOrder.find?_of_registerAll : ∀ {ss : List ParamSeq} {r : Registry} {i : Nat},
    InOrder e r → ss[i]? = some s → (r.registerAll ss)[i]? = some (.ok key) →
      (r.serveAll (ss.map .register)).find? s = some key := by
  intro ss
  induction ss with
  | nil => exact fun _ hs => nomatch hs
  | cons s' ss ih =>
    intro r i h hs hkey
    cases i with
    | succ i => exact ih (h.serve _) hs hkey
    | zero =>
      cases hs
      have hkey : (register s r).outcome = .ok key := Option.some.inj hkey
      refine find?_serveAll_register ss (h.serve _) ?_
      rw [Registry.serve]
      cases hregister : register s r with
      | error err r' =>
        rw [hregister] at hkey
        cases hkey
      | ok key' r' =>
        rw [hregister] at hkey
        cases hkey
        exact h.find?_of_register hregister

end Registry

/-- **Keys and sharing.**  Whatever was asked of a registry, no key is in use twice, each macro is
stored under its own key, the keys are at most 127, and the next key is above all of them and at
most 128.  Registering parameters fails exactly if no macro has them and key 127 is in use; then
nothing changes.  Otherwise the macro under the key that is returned has the parameters, and all
macros that were there are as they were; the key is the smallest one with the parameters, or else
one above all keys.  If macros are registered one after the other, those that get a key get the same
one exactly if both parts of their parameters are the same. -/
theorem register_keys (e : Effect) (requests : List Registry.Request) :
    let r := (Registry.new e).serveAll requests
    ((∀ key m, (key, m) ∈ r.entries.toList ↔ r.get? key = some m) ∧
      (∀ key m, r.get? key = some m → m.key = key) ∧
      (∀ key m, r.get? key = some m → key ≤ 127 ∧ key < r.nextKey) ∧ r.nextKey ≤ 128) ∧
    (∀ s,
      ((∃ err r', Registry.register s r = .error err r') ↔
        (∀ key, r.seq? key ≠ some s) ∧ ∃ m, r.get? 127 = some m) ∧
      (∀ err r', Registry.register s r = .error err r' → err = .registryFull e ∧ r' = r) ∧
      (¬ (∃ err r', Registry.register s r = .error err r') →
        ∃ key r', Registry.register s r = .ok key r' ∧
          r'.seq? key = some s ∧ (∀ key' m, r.get? key' = some m → r'.get? key' = some m) ∧
          ((r.seq? key = some s ∧ ∀ key', r.seq? key' = some s → key ≤ key') ∨
            ((∀ key', r.seq? key' ≠ some s) ∧ ∀ key' m, r.get? key' = some m → key' < key)))) ∧
    ∀ (ss : List ParamSeq) (i j : Nat) (s s' : ParamSeq) (key key' : Nat),
      ss[i]? = some s → ss[j]? = some s' →
      (r.registerAll ss)[i]? = some (.ok key) → (r.registerAll ss)[j]? = some (.ok key') →
        (key = key' ↔ s.main = s'.main ∧ s.loop = s'.loop) := by
  intro r
  have hr : r.InOrder e := Registry.inOrder_serveAll e requests
  refine ⟨⟨fun key m => hr.mem_toList_iff, fun key m => hr.key_eq, fun key m => hr.lt_of_get?,
    hr.nextKey_le⟩, fun s => ?_, ?_⟩
  · -- whether registering fails is known from the registry, and then it is known how
    refine ⟨?_, fun err r' herr => (hr.register_eq_error_iff.mp herr).2, fun hsuccess => ?_⟩
    · constructor
      · rintro ⟨err, r', herr⟩
        exact (hr.register_eq_error_iff.mp herr).1
      · intro hfull
        exact ⟨_, _, hr.register_eq_error_iff.mpr ⟨hfull, rfl, rfl⟩⟩
    · cases hregister : Registry.register s r with
      | error err r' => exact absurd ⟨err, r', hregister⟩ hsuccess
      | ok key r' => exact ⟨key, r', rfl, hr.register_eq_ok hregister⟩
  · -- in the end all parameters that got a key are found under it, so one key has one macro
    intro ss i j s s' key key' hs hs' hkey hkey'
    have hfind := hr.find?_of_registerAll hs hkey
    have hfind' := hr.find?_of_registerAll hs' hkey'
    have hend := hr.serveAll (ss.map .register)
    constructor
    · rintro rfl
      have hseq := (hend.find?_eq_some_iff.mp hfind).1
      rw [(hend.find?_eq_some_iff.mp hfind').1] at hseq
      cases hseq
      exact ⟨rfl, rfl⟩
    · -- equal parameters are found under one key
      rintro ⟨hmain, hloop⟩
      obtain rfl : s = s' := by
        cases s
        cases s'
        cases hmain
        cases hloop
        rfl
      exact Option.some.inj (hfind.symm.trans hfind')

/-- With a macro under the largest key, new parameters are refused, but those that are there are
found. -/
theorem register_keys_full :
    let r := (Registry.new .vibrato).serveAll
      [.register ⟨[.int 1], []⟩, .define 200 ⟨[.int 1], []⟩, .define 127 ⟨[.int 2], [.int 3]⟩,
        .advance 127]
    r.registerAll [⟨[.int 2], [.int 3]⟩, ⟨[.int 2, .int 3], []⟩, ⟨[.int 1], []⟩] =
        [.ok 127, .error (.registryFull .vibrato), .ok 0] ∧
      (∀ key, r.seq? key ≠ some ⟨[.int 2, .int 3], []⟩) ∧
      (∃ m, r.get? 127 = some m ∧ m.key = 127) ∧ r.nextKey ≤ 128 := by
  intro r
  obtain ⟨⟨-, hown, -, hnext⟩, hregister, -⟩ := register_keys .vibrato
    [.register ⟨[.int 1], []⟩, .define 200 ⟨[.int 1], []⟩, .define 127 ⟨[.int 2], [.int 3]⟩,
      .advance 127]
  obtain ⟨hnew, m, hm⟩ := (hregister ⟨[.int 2, .int 3], []⟩).1.mp ⟨_, _, rfl⟩
  exact ⟨rfl, hnew, ⟨m, hm, hown 127 m hm⟩, hnext⟩

end Chiptune
