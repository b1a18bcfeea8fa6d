import Chiptune.Proofs.Keys
import Chiptune.Proofs.Packing

/-!
# No record is packed twice

Packing can fail midway.  Then some macros are packed, the registry does not count as packed, and
packing may be tried again.  It meets its own records then.  It refuses them: in each layout a
record has another number of bytes than fields, or a byte too large for its field.

So whatever is asked of a registry, as long as it is packed for one chip and one record only, its
macros are as they were defined last or packed once.

## Main definitions

* `Registry.Request.PacksBy` — a request that packs in a given way, if it packs.
* `Registry.definitions`, `Registry.lastDefined` — the parameters that requests store, and those
  that were stored last under a key.

## Main results

* `Record.packSeq_refuses` — records are not packed again.
* `Registry.lastDefined_serveAll` — where nothing is packed again, macros are as they were defined
  last or packed once.
* `packs_once` — the same for records, and that a registry is packed once.
-/

namespace Chiptune

/-! ### Records -/

/-- **Records are not packed again.** -/
theorem Record.packSeq_refuses {chip : Chip} {record : Record} {s s' : ParamSeq}
    (h : packSeq chip record s = .ok s') : ∃ err, packSeq chip record s' = .error err := by
  cases hagain : packSeq chip record s' with
  | error err => exact ⟨err, rfl⟩
  | ok s'' =>
    exfalso
    obtain ⟨l, hl, ns, hns, -, rfl⟩ := packSeq_bytes h
    obtain ⟨l', hl', haccepts, -⟩ := packSeq_eq_ok_iff.mp hagain
    obtain rfl : l = l' := Option.some.inj (hl.symm.trans hl')
    have hlength : (formulas chip record).length = l.widths.length := by
      rw [← haccepts.length, List.length_map, List.length_map]
    have hfits := haccepts.fits
    unfold layout? at hl
    split at hl <;> cases hl
    · cases hlength
    · cases hlength
    · cases hlength
    · cases hlength
    · -- as many bytes as fields, but the third one has a mark above its field
      have hmem : (Param.ofByte (ns.getD 2 0 ||| 0x80), 7) ∈
          (((formulas .ym2151 .modulation).map (·.byte ns)).map .ofByte).zip [8, 7, 7, 2, 6] :=
        List.mem_of_getElem? (i := 2) rfl
      have hle : ((ns.getD 2 0 ||| 0x80).toNat : Int) ≤ 127 := (hfits _ hmem).2
      have hge : 128 ≤ (ns.getD 2 0 ||| 0x80).toNat := by
        rw [UInt8.toNat_or]
        exact Nat.right_le_or
      omega
    · cases hlength

namespace Registry

/-! ### Definitions -/

/-- The request packs in this way, if it packs. -/
def Request.PacksBy (f : ParamSeq → Except Error ParamSeq) : Request → Prop
  | .pack g => g = f
  | _ => True

/-- The parameters that requests store, in order, with their keys. -/
def definitions (r : Registry) : List Request → List (Nat × ParamSeq)
  | [] => []
  | q :: qs => (q.stores? r).toList ++ definitions (r.serve q) qs

/-- The parameters that were defined last under a key: by a request, or else before all of them. -/
def lastDefined (r : Registry) (qs : List Request) (key : Nat) : Option ParamSeq :=
  ((r.definitions qs).reverse.lookup key).or (r.seq? key)

theorem serveAll_concat (r : Registry) (qs : List Request) (q : Request) :
    r.serveAll (qs ++ [q]) = (r.serveAll qs).serve q := List.foldl_concat ..

theorem definitions_concat (r : Registry) (qs : List Request) (q : Request) :
    r.definitions (qs ++ [q]) = r.definitions qs ++ (q.stores? (r.serveAll qs)).toList := by
  induction qs generalizing r with
  | nil => exact List.append_nil _
  | cons x qs ih =>
    rw [List.cons_append, definitions, definitions, ih, List.append_assoc]
    rfl

theorem lastDefined_concat (r : Registry) (qs : List Request) (q : Request) (key : Nat) :
    r.lastDefined (qs ++ [q]) key =
      match q.stores? (r.serveAll qs) with
      | some (key', s) => if key' = key then some s else r.lastDefined qs key
      | none => r.lastDefined qs key := by
  unfold lastDefined
  rw [definitions_concat, List.reverse_append]
  cases q.stores? (r.serveAll qs) with
  | none => rfl
  | some x =>
    obtain ⟨key', s⟩ := x
    change (List.lookup key ((key', s) :: _)).or _ = _
    rw [List.lookup_cons]
    by_cases h : key' = key
    · simp [h]
    · rw [beq_false_of_ne (Ne.symm h)]
      simp [h]

/-! ### Packing once -/

section Once

variable {f : ParamSeq → Except Error ParamSeq}

theorem seq?_modify {r : Registry} {key : Nat} {g : Macro → Macro} (h : ∀ m, (g m).seq = m.seq)
    (key' : Nat) : { r with entries := r.entries.modify key g }.seq? key' = r.seq? key' := by
  rw [seq?, get?, Keyed.find?_modify, seq?, get?]
  split
  · cases r.entries.find? key' with
    | none => rfl
    | some m => exact congrArg some (h m)
  · rfl

/-- What can be packed was not packed before. -/
theorem eq_of_packed (hf : ∀ s s', f s = .ok s' → ∃ err, f s' = .error err) {s s' s'' : ParamSeq}
    (h : s' = s ∨ f s = .ok s') (hpacked : f s' = .ok s'') : s' = s := by
  rcases h with rfl | honce
  · rfl
  · obtain ⟨err, herr⟩ := hf s s' honce
    rw [herr] at hpacked
    cases hpacked

/-- Parameters that are as they were defined or packed once are so still after a packing that may
fail. -/
theorem asDefined_packed {p : Prop} {x y z : Option ParamSeq}
    (hf : ∀ s s', f s = .ok s' → ∃ err, f s' = .error err)
    (hxy : Option.Rel (fun s s' => s' = s ∨ f s = .ok s') x y)
    (hyz : Option.Rel (fun s s' => f s = .ok s' ∨ p ∧ s' = s) y z) :
    Option.Rel (fun s s' => s' = s ∨ f s = .ok s') x z := by
  cases hxy with
  | none =>
    cases hyz
    exact .none
  | some hxy =>
    cases hyz with
    | some hyz =>
      rcases hyz with hpacked | ⟨-, rfl⟩
      · obtain rfl := eq_of_packed hf hxy hpacked
        exact .some (.inr hpacked)
      · exact .some hxy

/-- **Macros are as they were defined last or packed once**, if nothing is packed again. -/
theorem lastDefined_serveAll (hf : ∀ s s', f s = .ok s' → ∃ err, f s' = .error err)
    (r : Registry) (qs : List Request) (hqs : ∀ q ∈ qs, q.PacksBy f) (key : Nat) :
    Option.Rel (fun s s' => s' = s ∨ f s = .ok s') (r.lastDefined qs key)
      ((r.serveAll qs).seq? key) := by
  induction qs using List.reverseRecOn with
  | nil =>
    change Option.Rel _ (r.seq? key) (r.seq? key)
    cases r.seq? key with
    | none => exact .none
    | some s => exact .some (.inl rfl)
  | append_singleton qs q ih =>
    obtain ⟨hqs, hq⟩ := List.forall_mem_append.mp hqs
    have ih := ih hqs
    rw [serveAll_concat, lastDefined_concat]
    rcases serve_cases (r.serveAll qs) q with ⟨key', s, hstores, -, hput⟩ |
      ⟨hstores, key', g, ⟨hg, -⟩, hmodify⟩ | ⟨hstores, g, rfl, -, hpack⟩ | ⟨hstores, hsame⟩
    · rw [hstores, hput, seq?_put]
      by_cases hkey : key' = key
      · simp only [hkey, if_true]
        exact .some (.inl rfl)
      · simp only [hkey, if_false]
        exact ih
    · rw [hstores, hmodify, seq?_modify hg]
      exact ih
    · obtain rfl : g = f := hq _ List.mem_cons_self
      rw [hstores, hpack]
      exact asDefined_packed hf ih (seq?_packEntries g (r.serveAll qs) _ key)
    · rw [hstores, hsame]
      exact ih

/-- Where packing succeeds, every macro is packed once since it was defined last. -/
theorem lastDefined_pack (hf : ∀ s s', f s = .ok s' → ∃ err, f s' = .error err)
    {r r' : Registry} {qs : List Request} (hqs : ∀ q ∈ qs, q.PacksBy f)
    (h : pack f (r.serveAll qs) = .ok () r') (key : Nat) :
    Option.Rel (fun s s' => f s = .ok s') (r.lastDefined qs key) (r'.seq? key) := by
  have hbefore := lastDefined_serveAll hf r qs hqs key
  have hpack := pack_eq_ok h key
  generalize r.lastDefined qs key = x at hbefore ⊢
  generalize (r.serveAll qs).seq? key = y at hbefore hpack
  generalize r'.seq? key = z at hpack ⊢
  cases hbefore with
  | none =>
    cases hpack
    exact .none
  | some hbefore =>
    cases hpack with
    | some hpacked =>
      obtain rfl := eq_of_packed hf hbefore hpacked
      exact .some hpacked

end Once

/-! ### Packed registries -/

theorem effect_serve (r : Registry) (q : Request) : (r.serve q).effect = r.effect := by
  rcases serve_cases r q with ⟨key, s, -, -, h⟩ | ⟨-, key, f, -, h⟩ | ⟨-, f, -, -, h⟩ | ⟨-, h⟩
  · rw [h]
    rfl
  · rw [h]
  · rw [h]
  · rw [h]

/-- A packed registry stays packed. -/
theorem packed_serve {r : Registry} (hr : r.packed = true) (q : Request) :
    (r.serve q).packed = true := by
  rcases serve_cases r q with ⟨key, s, -, -, h⟩ | ⟨-, key, f, -, h⟩ | ⟨-, f, -, hpacked, -⟩ | ⟨-, h⟩
  · rw [h]
    exact hr
  · rw [h]
    exact hr
  · rw [hr] at hpacked
    cases hpacked
  · rw [h]
    exact hr

theorem effect_serveAll (r : Registry) (qs : List Request) : (r.serveAll qs).effect = r.effect := by
  induction qs generalizing r with
  | nil => rfl
  | cons q qs ih => exact (ih (r.serve q)).trans (effect_serve r q)

theorem packed_serveAll {r : Registry} (hr : r.packed = true) (qs : List Request) :
    (r.serveAll qs).packed = true := by
  induction qs generalizing r with
  | nil => exact hr
  | cons q qs ih => exact ih (packed_serve hr q)

theorem packed_of_pack {f : ParamSeq → Except Error ParamSeq} {r r' : Registry}
    (h : pack f r = .ok () r') : r'.packed = true ∧ r'.effect = r.effect := by
  unfold pack at h
  split at h
  · cases h
  · split at h
    · cases h
    · cases h
      exact ⟨rfl, rfl⟩

/-- **A packed registry is not packed again**, whatever was asked of it since. -/
theorem pack_serveAll {r : Registry} (hr : r.packed = true) (qs : List Request)
    (f : ParamSeq → Except Error ParamSeq) :
    pack f (r.serveAll qs) = .error (.alreadyPacked r.effect) (r.serveAll qs) := by
  rw [pack, if_pos (packed_serveAll hr qs), effect_serveAll]

end Registry

/-- **No record is packed twice.**  Packing refuses what it has made.  So if a registry is packed
for one chip and one record only, however often that fails and is tried again, the parameters under
each key are at all times those that were defined last, or these packed once.  After a success all
of them are packed once, and from then on every packing fails and changes nothing. -/
theorem packs_once (chip : Chip) (record : Record) :
    (∀ s s', Record.packSeq chip record s = .ok s' →
      ∃ err, Record.packSeq chip record s' = .error err) ∧
    ∀ (r₀ : Registry) (requests : List Registry.Request),
      (∀ q ∈ requests, q.PacksBy (Record.packSeq chip record)) →
      (∀ key, Option.Rel (fun s s' => s' = s ∨ Record.packSeq chip record s = .ok s')
        (r₀.lastDefined requests key) ((r₀.serveAll requests).seq? key)) ∧
      ∀ r, Registry.pack (Record.packSeq chip record) (r₀.serveAll requests) = .ok () r →
        (∀ key, Option.Rel (fun s s' => Record.packSeq chip record s = .ok s')
          (r₀.lastDefined requests key) (r.seq? key)) ∧
        ∀ later f, Registry.pack f (r.serveAll later) =
          .error (.alreadyPacked r₀.effect) (r.serveAll later) := by
  have hrefuses : ∀ s s', Record.packSeq chip record s = .ok s' →
      ∃ err, Record.packSeq chip record s' = .error err := fun s s' => Record.packSeq_refuses
  refine ⟨hrefuses, fun r₀ requests hrequests => ⟨?_, fun r hpack => ⟨?_, fun later f => ?_⟩⟩⟩
  · exact Registry.lastDefined_serveAll hrefuses r₀ requests hrequests
  · exact Registry.lastDefined_pack hrefuses hrequests hpack
  · obtain ⟨hpacked, heffect⟩ := Registry.packed_of_pack hpack
    rw [Registry.pack_serveAll hpacked, heffect, Registry.effect_serveAll]

/-- An envelope with a symbol stops the packing midway, and the next one stops at the record that is
there already.  When both are defined again, packing succeeds, once. -/
theorem packs_once_retried :
    let pack := Record.packSeq .ym2612 .adsr
    let failed : List Registry.Request :=
      [.define 0 ⟨[.int 10, .int 20, .int 7], []⟩, .register ⟨[.text "slow", .int 0, .int 0], []⟩,
        .pack pack, .pack pack]
    let mended : List Registry.Request :=
      [.define 0 ⟨[.int 1, .int 2, .int 3], []⟩, .define 1 ⟨[.int 31, .int 0, .int 31], []⟩]
    ((Registry.new .adsr).serveAll failed).seq? 0 =
        some ⟨[.int 10, .int 20, .int 7, .int 0x53], []⟩ ∧
      (Registry.new .adsr).lastDefined failed 0 = some ⟨[.int 10, .int 20, .int 7], []⟩ ∧
      ∃ r, Registry.pack pack ((Registry.new .adsr).serveAll (failed ++ mended)) = .ok () r ∧
        r.seq? 1 = some ⟨[.int 31, .int 0, .int 31, .int 0xFF], []⟩ ∧
        (∀ key, Option.Rel (fun s s' => pack s = .ok s')
          ((Registry.new .adsr).lastDefined (failed ++ mended) key) (r.seq? key)) ∧
        ∀ f, Registry.pack f r = .error (.alreadyPacked .adsr) r := by
  intro pack failed mended
  have hrequests : ∀ q ∈ failed ++ mended, q.PacksBy pack := by
    simp [failed, mended, Registry.Request.PacksBy]
  obtain ⟨-, hsuccess⟩ := (packs_once .ym2612 .adsr).2 (.new .adsr) (failed ++ mended) hrequests
  refine ⟨by rfl, by rfl, _, rfl, by rfl, ?_⟩
  obtain ⟨honce, hlater⟩ := hsuccess _ rfl
  exact ⟨honce, hlater []⟩

end Chiptune
