import Chiptune.Record
import Mathlib.Data.List.Forall2
import Mathlib.Data.Nat.Bitwise

/-!
# Packed records are exact

A chip takes a macro as a record if the chip has such records, there is no loop part, and each field
is a number with room in its bits.  Anything else is refused, and the error tells the first field
that does not fit.

The bytes of a record are put together by byte arithmetic, which drops what a byte has no room for.
To see that nothing is dropped, the arithmetic is written down as formulas.  A formula can be
computed in bytes or in numbers without a limit, and an upper bound of its value follows from the
widths of the fields.  Where the bounds of all its parts are below 256, both ways agree at every
step.  So the bytes can be read as numbers, from which the fields are found again.

## Main definitions

* `Param.FitsIn` — whether a parameter is a number with room in some bits.
* `Record.Layout.Accepts` — whether a macro can be made a record.
* `Record.Formula`, `Record.formulas` — the arithmetic behind the bytes of a record.
* `Record.Formula.Exact` — the parts of a formula are the same in bytes and without a limit.
* `Record.unpackSeq` — the macro that a record was made of.

## Main results

* `Record.fields_of_firstMisfit` — the first field that does not fit is refused.
* `Record.packSeq_eq_ok_iff` — a macro is packed exactly if the layout accepts it.
* `Record.Formula.exact_le_bound`, `Record.Formula.exact_of_lt` — the bounds hold, and nothing is
  dropped where they are small.
* `Record.unpackSeq_packSeq` — a macro is found again in its record.
* `packSeq_exact` — which macros are packed, and what becomes of them.
-/

namespace Chiptune

/-! ### Fields -/

namespace Param

/-- The parameter is a number with room in `width` bits. -/
def FitsIn (width : Nat) : Param → Prop
  | int n => 0 ≤ n ∧ n ≤ 2 ^ width - 1
  | text _ => False

instance (width : Nat) : (p : Param) → Decidable (p.FitsIn width)
  | int n => inferInstanceAs (Decidable (0 ≤ n ∧ n ≤ 2 ^ width - 1))
  | text _ => inferInstanceAs (Decidable False)

/-- The byte of a number that fits in one. -/
def toByte : Param → UInt8
  | int n => .ofNat n.toNat
  | text _ => 0

/-- A byte as a parameter. -/
def ofByte (b : UInt8) : Param := int b.toNat

theorem toByte_ofByte (b : UInt8) : (ofByte b).toByte = b := by
  rw [ofByte, toByte, Int.toNat_natCast, UInt8.ofNat_toNat]

theorem ofByte_fitsIn (b : UInt8) : (ofByte b).FitsIn 8 := by
  have hb := b.toNat_lt
  exact ⟨by omega, by omega⟩

/-- In a field of at most eight bits, a number that fits is that of its byte. -/
theorem FitsIn.toByte {p : Param} {width : Nat} (h : p.FitsIn width) (hwidth : width ≤ 8) :
    p.toByte.toNat < 2 ^ width ∧ ofByte p.toByte = p := by
  cases p with
  | text text => exact h.elim
  | int n =>
    obtain ⟨hpos, hle⟩ := h
    obtain ⟨k, rfl⟩ := Int.eq_ofNat_of_zero_le hpos
    have hlarge : 2 ^ width ≤ 2 ^ 8 := Nat.pow_le_pow_right (by decide) hwidth
    have hpow : ((2 ^ width : Nat) : Int) = 2 ^ width := by push_cast; rfl
    have hbyte : (Param.int k).toByte.toNat = k := by
      rw [Param.toByte, Int.toNat_natCast, UInt8.toNat_ofNat']
      exact Nat.mod_eq_of_lt (by omega)
    rw [ofByte, hbyte]
    exact ⟨by omega, rfl⟩

end Param

namespace Record

/-- The error for a parameter that does not fit the field at an index. -/
def refusal (chip : Chip) (record : String) (index width : Nat) : Param → Error
  | .text text => .paramType record index text
  | .int n => .paramRange chip record index n (2 ^ width - 1)

theorem number_eq (chip : Chip) (record : String) (index width : Nat) (p : Param) :
    number chip record index (2 ^ width - 1) p =
      if p.FitsIn width then .ok p.toByte else .error (refusal chip record index width p) := by
  cases p <;> rfl

/-- The fields are read one by one, as long as they fit. -/
theorem fields_cons (chip : Chip) (record : String) (index : Nat) (z : Param × Nat)
    (zs : List (Param × Nat)) :
    fields chip record index (z :: zs) =
      if z.1.FitsIn z.2 then (fields chip record (index + 1) zs).map (z.1.toByte :: ·)
      else .error (refusal chip record index z.2 z.1) := by
  change (number chip record index (2 ^ z.2 - 1) z.1 >>= fun n =>
    fields chip record (index + 1) zs >>= fun ns => pure (n :: ns)) = _
  rw [number_eq]
  by_cases hz : z.1.FitsIn z.2
  · rw [if_pos hz, if_pos hz]
    cases fields chip record (index + 1) zs <;> rfl
  · rw [if_neg hz, if_neg hz]
    rfl

/-- Where all parameters fit, the fields are their bytes. -/
theorem fields_eq_ok {chip : Chip} {record : String} :
    ∀ {zs : List (Param × Nat)} {index : Nat}, (∀ z ∈ zs, z.1.FitsIn z.2) →
      fields chip record index zs = .ok (zs.map (·.1.toByte)) := by
  intro zs
  induction zs with
  | nil => exact fun _ => rfl
  | cons z zs ih =>
    intro index h
    obtain ⟨hz, hzs⟩ := List.forall_mem_cons.mp h
    rw [fields_cons, if_pos hz, ih hzs]
    rfl

/-- At an index is the first parameter that does not fit its field. -/
structure FirstMisfit (zs : List (Param × Nat)) (i : Nat) (z : Param × Nat) : Prop where
  /-- It is there. -/
  get : zs[i]? = some z
  /-- It does not fit. -/
  misfit : ¬ z.1.FitsIn z.2
  /-- Those before it fit. -/
  before : ∀ j < i, ∀ x, zs[j]? = some x → x.1.FitsIn x.2

theorem exists_firstMisfit : ∀ {zs : List (Param × Nat)}, ¬ (∀ z ∈ zs, z.1.FitsIn z.2) →
    ∃ i z, FirstMisfit zs i z := by
  intro zs
  induction zs with
  | nil => exact fun h => absurd (fun _ hz => nomatch hz) h
  | cons x zs ih =>
    intro h
    by_cases hx : x.1.FitsIn x.2
    · obtain ⟨i, z, hget, hz, hbefore⟩ := ih fun hzs => h (List.forall_mem_cons.mpr ⟨hx, hzs⟩)
      refine ⟨i + 1, z, hget, hz, fun j hj y hy => ?_⟩
      cases j with
      | zero =>
        cases hy
        exact hx
      | succ j => exact hbefore j (by omega) y hy
    · exact ⟨0, x, rfl, hx, fun j hj => absurd hj (Nat.not_lt_zero j)⟩

/-- **The first parameter that does not fit is refused.** -/
theorem fields_of_firstMisfit {chip : Chip} {record : String} {z : Param × Nat} :
    ∀ {zs : List (Param × Nat)} {index i : Nat}, FirstMisfit zs i z →
      fields chip record index zs = .error (refusal chip record (index + i) z.2 z.1) := by
  intro zs
  induction zs with
  | nil => exact fun h => nomatch h.get
  | cons x zs ih =>
    intro index i h
    cases i with
    | zero =>
      cases h.get
      rw [fields_cons, if_neg h.misfit, Nat.add_zero]
    | succ i =>
      have hrest : FirstMisfit zs i z :=
        ⟨h.get, h.misfit, fun j hj y hy => h.before (j + 1) (by omega) y hy⟩
      rw [fields_cons, if_pos (h.before 0 (by omega) x rfl), ih hrest, Nat.add_comm i,
        ← Nat.add_assoc]
      rfl

/-- Fields fail exactly with the first parameter that does not fit. -/
theorem fields_eq_error_iff {chip : Chip} {record : String} {zs : List (Param × Nat)} {index : Nat}
    {e : Error} : fields chip record index zs = .error e ↔
      ∃ i z, FirstMisfit zs i z ∧ e = refusal chip record (index + i) z.2 z.1 := by
  constructor
  · intro h
    have hnot : ¬ ∀ z ∈ zs, z.1.FitsIn z.2 := by
      intro hfits
      rw [fields_eq_ok hfits] at h
      cases h
    obtain ⟨i, z, hmisfit⟩ := exists_firstMisfit hnot
    rw [fields_of_firstMisfit hmisfit] at h
    exact ⟨i, z, hmisfit, (Except.error.inj h).symm⟩
  · rintro ⟨i, z, hmisfit, rfl⟩
    exact fields_of_firstMisfit hmisfit

/-! ### Layouts -/

/-- A macro that can be made a record: it has no loop part, as many parameters as there are fields,
and each fits its field. -/
structure Layout.Accepts (l : Layout) (s : ParamSeq) : Prop where
  /-- There is no loop part. -/
  loop : s.loop = []
  /-- There is a parameter for each field. -/
  length : s.main.length = l.widths.length
  /-- The parameters fit. -/
  fits : ∀ z ∈ s.main.zip l.widths, z.1.FitsIn z.2

/-- The fields have room for their numbers. -/
def Within (widths : List Nat) (ns : List UInt8) : Prop :=
  List.Forall₂ (fun n width => n.toNat < 2 ^ width) ns widths

variable {chip : Chip} {record : Record} {l : Layout} {s s' : ParamSeq}

theorem widths_le (h : layout? chip record = some l) : ∀ width ∈ l.widths, width ≤ 8 := by
  unfold layout? at h
  split at h <;> cases h <;> decide

/-- The parameters that a layout accepts are the numbers of their bytes. -/
theorem Layout.Accepts.fields (h : layout? chip record = some l) (hs : l.Accepts s) :
    Within l.widths (s.main.map Param.toByte) ∧
      (s.main.map Param.toByte).map Param.ofByte = s.main := by
  have hbytes : ∀ z ∈ s.main.zip l.widths,
      z.1.toByte.toNat < 2 ^ z.2 ∧ .ofByte z.1.toByte = z.1 := fun z hz =>
    (hs.fits z hz).toByte (widths_le h z.2 (List.of_mem_zip hz).2)
  constructor
  · rw [Within, List.forall₂_map_left_iff, List.forall₂_iff_zip]
    exact ⟨hs.length, fun hz => (hbytes _ hz).1⟩
  · rw [List.map_map]
    refine (List.map_congr_left fun p hp => ?_).trans (List.map_id _)
    -- each parameter has a field
    rw [← List.map_fst_zip (Nat.le_of_eq hs.length)] at hp
    obtain ⟨z, hz, rfl⟩ := List.mem_map.mp hp
    exact (hbytes z hz).2

theorem pack_eq {params : List Param} (h : layout? chip record = some l)
    (hlength : params.length = l.widths.length) :
    pack chip record params =
      (fields chip record.name 0 (params.zip l.widths)).map l.assemble := by
  unfold pack layout
  rw [h]
  change ite _ _ _ = _
  rw [if_pos hlength]
  cases fields chip record.name 0 (params.zip l.widths) <;> rfl

/-- Without a loop part, and with the right number of parameters, only the fields decide. -/
theorem packSeq_eq (h : layout? chip record = some l) (hloop : s.loop = [])
    (hlength : s.main.length = l.widths.length) :
    packSeq chip record s =
      (fields chip record.name 0 (s.main.zip l.widths)).map fun ns =>
        ⟨(l.assemble ns).map .ofByte, []⟩ := by
  unfold packSeq
  rw [hloop, pack_eq h hlength]
  cases fields chip record.name 0 (s.main.zip l.widths) <;> rfl

/-- What is packed is a record of the chip, without a loop part, and with all fields. -/
theorem shape_of_packSeq (h : packSeq chip record s = .ok s') :
    ∃ l, layout? chip record = some l ∧ s.loop = [] ∧ s.main.length = l.widths.length := by
  unfold packSeq at h
  split at h
  · next hloop =>
    unfold pack layout at h
    cases hl : layout? chip record with
    | none =>
      rw [hl] at h
      cases h
    | some l =>
      rw [hl] at h
      change (ite _ _ _ >>= _) = _ at h
      split at h
      · next hlength => exact ⟨l, rfl, List.isEmpty_iff.mp hloop, hlength⟩
      · cases h
  · cases harity : arity chip record <;> rw [harity] at h <;> cases h

/-- **A macro is packed exactly if the layout accepts it.** -/
theorem packSeq_eq_ok_iff : packSeq chip record s = .ok s' ↔
    ∃ l, layout? chip record = some l ∧ l.Accepts s ∧
      s' = ⟨(l.assemble (s.main.map Param.toByte)).map .ofByte, []⟩ := by
  have hbytes : ∀ {l : Layout}, l.Accepts s →
      fields chip record.name 0 (s.main.zip l.widths) = .ok (s.main.map Param.toByte) := by
    intro l hs
    rw [fields_eq_ok hs.fits]
    change Except.ok ((s.main.zip l.widths).map (Param.toByte ∘ Prod.fst)) = _
    rw [← List.map_map, List.map_fst_zip (Nat.le_of_eq hs.length)]
  constructor
  · intro h
    obtain ⟨l, hl, hloop, hlength⟩ := shape_of_packSeq h
    rw [packSeq_eq hl hloop hlength] at h
    by_cases hfits : ∀ z ∈ s.main.zip l.widths, z.1.FitsIn z.2
    · have hs : l.Accepts s := ⟨hloop, hlength, hfits⟩
      rw [hbytes hs] at h
      exact ⟨l, hl, hs, (Except.ok.inj h).symm⟩
    · obtain ⟨i, z, hmisfit⟩ := exists_firstMisfit hfits
      rw [fields_of_firstMisfit hmisfit] at h
      cases h
  · rintro ⟨l, hl, hs, rfl⟩
    rw [packSeq_eq hl hs.loop hs.length, hbytes hs]
    rfl

/-! ### The arithmetic of a record -/

/-- A byte of a record in terms of the fields. -/
inductive Formula where
  /-- A field. -/
  | field (index : Nat)
  /-- A fixed byte. -/
  | const (value : UInt8)
  /-- The bits moved up. -/
  | shiftLeft (x : Formula) (count : Fin 8)
  /-- The bits moved down. -/
  | shiftRight (x : Formula) (count : Fin 8)
  /-- The bits of either. -/
  | or (x y : Formula)
  /-- The bits of exactly one. -/
  | xor (x y : Formula)
  /-- A sum. -/
  | add (x y : Formula)
  /-- A product. -/
  | mul (x y : Formula)
  deriving DecidableEq, Repr

namespace Formula

/-- The value in byte arithmetic. -/
def byte (ns : List UInt8) : Formula → UInt8
  | field i => ns.getD i 0
  | const b => b
  | shiftLeft x k => x.byte ns <<< .ofNat k
  | shiftRight x k => x.byte ns >>> .ofNat k
  | or x y => x.byte ns ||| y.byte ns
  | xor x y => x.byte ns ^^^ y.byte ns
  | add x y => x.byte ns + y.byte ns
  | mul x y => x.byte ns * y.byte ns

/-- The value in numbers without a limit. -/
def exact (ns : List UInt8) : Formula → Nat
  | field i => (ns.getD i 0).toNat
  | const b => b.toNat
  | shiftLeft x k => x.exact ns * 2 ^ k.val
  | shiftRight x k => x.exact ns / 2 ^ k.val
  | or x y => x.exact ns ||| y.exact ns
  | xor x y => x.exact ns ^^^ y.exact ns
  | add x y => x.exact ns + y.exact ns
  | mul x y => x.exact ns * y.exact ns

/-- An upper bound of the value, from the widths of the fields. -/
def bound (widths : List Nat) : Formula → Nat
  | field i => 2 ^ widths.getD i 0 - 1
  | const b => b.toNat
  | shiftLeft x k => x.bound widths * 2 ^ k.val
  | shiftRight x k => x.bound widths / 2 ^ k.val
  | or x y | xor x y => 2 ^ ((max (x.bound widths) (y.bound widths)).log2 + 1) - 1
  | add x y => x.bound widths + y.bound widths
  | mul x y => x.bound widths * y.bound widths

/-- The formula and all formulas that it is made of. -/
def parts : Formula → List Formula
  | φ@(field _) | φ@(const _) => [φ]
  | φ@(shiftLeft x _) | φ@(shiftRight x _) => φ :: x.parts
  | φ@(or x y) | φ@(xor x y) | φ@(add x y) | φ@(mul x y) => φ :: (x.parts ++ y.parts)

/-- No step of the byte arithmetic drops anything. -/
def Exact (ns : List UInt8) (φ : Formula) : Prop := ∀ ψ ∈ φ.parts, (ψ.byte ns).toNat = ψ.exact ns

theorem self_mem_parts (φ : Formula) : φ ∈ φ.parts := by
  cases φ <;> exact List.mem_cons_self

variable {ns : List UInt8} {widths : List Nat}

theorem Exact.self {φ : Formula} (h : φ.Exact ns) : (φ.byte ns).toNat = φ.exact ns :=
  h φ φ.self_mem_parts

/-- Numbers with bounds have at most as many bits as the larger bound. -/
theorem lt_of_le_max {a b c : Nat} (h : a ≤ b ∨ a ≤ c) : a < 2 ^ ((max b c).log2 + 1) :=
  Nat.lt_of_le_of_lt (by omega : a ≤ max b c) Nat.lt_log2_self

/-- **The bound holds**, if the fields have room for their numbers. -/
theorem exact_le_bound (h : ∀ i, (ns.getD i 0).toNat < 2 ^ widths.getD i 0) (φ : Formula) :
    φ.exact ns ≤ φ.bound widths := by
  induction φ with
  | field i => exact Nat.le_sub_one_of_lt (h i)
  | const b => exact Nat.le_refl _
  | shiftLeft x k ih => exact Nat.mul_le_mul_right _ ih
  | shiftRight x k ih => exact Nat.div_le_div_right ih
  | or x y ihx ihy =>
    exact Nat.le_sub_one_of_lt
      (Nat.or_lt_two_pow (lt_of_le_max (.inl ihx)) (lt_of_le_max (.inr ihy)))
  | xor x y ihx ihy =>
    exact Nat.le_sub_one_of_lt
      (Nat.xor_lt_two_pow (lt_of_le_max (.inl ihx)) (lt_of_le_max (.inr ihy)))
  | add x y ihx ihy => exact Nat.add_le_add ihx ihy
  | mul x y ihx ihy => exact Nat.mul_le_mul ihx ihy

theorem toNat_ofNat_count (k : Fin 8) : (UInt8.ofNat k).toNat % 8 = k := by
  have hk := k.isLt
  rw [UInt8.toNat_ofNat']
  omega

/-- **Byte arithmetic is exact** while every part has room in a byte. -/
theorem exact_of_lt {φ : Formula} (h : ∀ ψ ∈ φ.parts, ψ.exact ns < 256) : φ.Exact ns := by
  induction φ with
  | field i => exact fun ψ hψ => by rw [List.mem_singleton.mp hψ]; rfl
  | const b => exact fun ψ hψ => by rw [List.mem_singleton.mp hψ]; rfl
  | shiftLeft x k ih =>
    obtain ⟨hself, hx⟩ := List.forall_mem_cons.mp h
    refine List.forall_mem_cons.mpr ⟨?_, ih hx⟩
    rw [byte, UInt8.toNat_shiftLeft, toNat_ofNat_count, (ih hx).self, Nat.shiftLeft_eq]
    exact Nat.mod_eq_of_lt hself
  | shiftRight x k ih =>
    obtain ⟨-, hx⟩ := List.forall_mem_cons.mp h
    refine List.forall_mem_cons.mpr ⟨?_, ih hx⟩
    rw [byte, UInt8.toNat_shiftRight, toNat_ofNat_count, (ih hx).self, Nat.shiftRight_eq_div_pow]
    rfl
  | or x y ihx ihy =>
    obtain ⟨hx, hy⟩ := List.forall_mem_append.mp (List.forall_mem_cons.mp h).2
    refine List.forall_mem_cons.mpr ⟨?_, List.forall_mem_append.mpr ⟨ihx hx, ihy hy⟩⟩
    rw [byte, UInt8.toNat_or, (ihx hx).self, (ihy hy).self]
    rfl
  | xor x y ihx ihy =>
    obtain ⟨hx, hy⟩ := List.forall_mem_append.mp (List.forall_mem_cons.mp h).2
    refine List.forall_mem_cons.mpr ⟨?_, List.forall_mem_append.mpr ⟨ihx hx, ihy hy⟩⟩
    rw [byte, UInt8.toNat_xor, (ihx hx).self, (ihy hy).self]
    rfl
  | add x y ihx ihy =>
    obtain ⟨hself, hparts⟩ := List.forall_mem_cons.mp h
    obtain ⟨hx, hy⟩ := List.forall_mem_append.mp hparts
    refine List.forall_mem_cons.mpr ⟨?_, List.forall_mem_append.mpr ⟨ihx hx, ihy hy⟩⟩
    rw [byte, UInt8.toNat_add, (ihx hx).self, (ihy hy).self]
    exact Nat.mod_eq_of_lt hself
  | mul x y ihx ihy =>
    obtain ⟨hself, hparts⟩ := List.forall_mem_cons.mp h
    obtain ⟨hx, hy⟩ := List.forall_mem_append.mp hparts
    refine List.forall_mem_cons.mpr ⟨?_, List.forall_mem_append.mpr ⟨ihx hx, ihy hy⟩⟩
    rw [byte, UInt8.toNat_mul, (ihx hx).self, (ihy hy).self]
    exact Nat.mod_eq_of_lt hself

end Formula

/-- The bytes of a record on a chip. -/
def formulas : Chip → Record → List Formula
  | .ym2413, adsr =>
    [.or (.shiftLeft (.field 0) 4) (.field 1),
      .or (.shiftLeft (.xor (.field 2) (.const 15)) 4) (.field 3)]
  | .ym2612, adsr | .ym2151, adsr =>
    [.field 0, .field 1, .field 2,
      .or (.shiftRight (.field 2) 1)
        (.shiftLeft (.shiftRight (.xor (.field 1) (.const 31)) 1) 4)]
  | .sid, adsr =>
    [.or (.shiftLeft (.field 0) 4) (.field 1), .or (.shiftLeft (.field 2) 4) (.field 3)]
  | .ym2151, modulation =>
    [.field 0, .field 1, .or (.field 2) (.const 0x80), .field 3, .add (.field 4) (.const 0xC0)]
  | .ym2612, modulation => [.field 0, .or (.mul (.field 1) (.const 8)) (.field 2)]
  | _, _ => []

theorem assemble_eq (h : layout? chip record = some l) {ns : List UInt8}
    (hlength : ns.length = l.widths.length) :
    l.assemble ns = (formulas chip record).map (·.byte ns) := by
  unfold layout? at h
  split at h
  · cases h
    match ns, hlength with | [_, _, _, _], _ => rfl
  · cases h
    match ns, hlength with | [_, _, _], _ => rfl
  · cases h
    match ns, hlength with | [_, _, _], _ => rfl
  · cases h
    match ns, hlength with | [_, _, _, _], _ => rfl
  · cases h
    match ns, hlength with | [_, _, _, _, _], _ => rfl
  · cases h
    match ns, hlength with | [_, _, _], _ => rfl
  · cases h

theorem bound_le (h : layout? chip record = some l) :
    ∀ φ ∈ formulas chip record, ∀ ψ ∈ φ.parts, ψ.bound l.widths ≤ 255 := by
  unfold layout? at h
  split at h <;> cases h <;> decide

/-- The fields of a record from its bytes. -/
def unpack : Chip → Record → List Nat → List Nat
  | .ym2413, adsr, [x, y] => [x / 16, x % 16, y / 16 ^^^ 15, y % 16]
  | .ym2612, adsr, [x, y, z, _] | .ym2151, adsr, [x, y, z, _] => [x, y, z]
  | .sid, adsr, [x, y] => [x / 16, x % 16, y / 16, y % 16]
  | .ym2151, modulation, [x, y, z, u, v] => [x, y, z % 128, u, v - 0xC0]
  | .ym2612, modulation, [x, y] => [x, y / 8, y % 8]
  | _, _, _ => []

/-- A number above some low bits, and a number in them, are found again. -/
theorem or_mul_two_pow (high : Nat) {low k : Nat} (h : low < 2 ^ k) :
    (high * 2 ^ k ||| low) / 2 ^ k = high ∧ (high * 2 ^ k ||| low) % 2 ^ k = low := by
  rw [Nat.mul_comm, ← Nat.two_pow_add_eq_or_of_lt h, Nat.add_comm]
  exact ⟨by rw [Nat.add_mul_div_left _ _ (Nat.two_pow_pos k), Nat.div_eq_of_lt h, Nat.zero_add],
    by rw [Nat.add_mul_mod_self_left, Nat.mod_eq_of_lt h]⟩

/-- **The fields are found again** in the bytes of a record. -/
theorem unpack_exact (h : layout? chip record = some l) {ns : List UInt8}
    (hns : Within l.widths ns) :
    unpack chip record ((formulas chip record).map (·.exact ns)) = ns.map (·.toNat) := by
  unfold layout? at h
  split at h
  · cases h
    match ns, hns with
    | [a, b, c, d], .cons _ (.cons hb (.cons _ (.cons hd .nil))) =>
      obtain ⟨hx, hx'⟩ := or_mul_two_pow a.toNat hb
      obtain ⟨hy, hy'⟩ := or_mul_two_pow (c.toNat ^^^ 15) hd
      change [(a.toNat * 2 ^ 4 ||| b.toNat) / 2 ^ 4, (a.toNat * 2 ^ 4 ||| b.toNat) % 2 ^ 4,
        ((c.toNat ^^^ 15) * 2 ^ 4 ||| d.toNat) / 2 ^ 4 ^^^ 15,
        ((c.toNat ^^^ 15) * 2 ^ 4 ||| d.toNat) % 2 ^ 4] = [a.toNat, b.toNat, c.toNat, d.toNat]
      rw [hx, hx', hy, hy', Nat.xor_xor_cancel_right]
  · cases h
    match ns, hns with | [_, _, _], _ => rfl
  · cases h
    match ns, hns with | [_, _, _], _ => rfl
  · cases h
    match ns, hns with
    | [a, b, c, d], .cons _ (.cons hb (.cons _ (.cons hd .nil))) =>
      obtain ⟨hx, hx'⟩ := or_mul_two_pow a.toNat hb
      obtain ⟨hy, hy'⟩ := or_mul_two_pow c.toNat hd
      change [(a.toNat * 2 ^ 4 ||| b.toNat) / 2 ^ 4, (a.toNat * 2 ^ 4 ||| b.toNat) % 2 ^ 4,
        (c.toNat * 2 ^ 4 ||| d.toNat) / 2 ^ 4, (c.toNat * 2 ^ 4 ||| d.toNat) % 2 ^ 4] =
          [a.toNat, b.toNat, c.toNat, d.toNat]
      rw [hx, hx', hy, hy']
  · cases h
    match ns, hns with
    | [a, b, c, d, e], .cons _ (.cons _ (.cons hc (.cons _ (.cons _ .nil)))) =>
      obtain ⟨-, hz⟩ := or_mul_two_pow 1 hc
      rw [Nat.or_comm] at hz
      change [a.toNat, b.toNat, (c.toNat ||| 1 * 2 ^ 7) % 2 ^ 7, d.toNat, e.toNat + 192 - 192] =
        [a.toNat, b.toNat, c.toNat, d.toNat, e.toNat]
      rw [hz, Nat.add_sub_cancel]
  · cases h
    match ns, hns with
    | [a, b, c], .cons _ (.cons _ (.cons hc .nil)) =>
      obtain ⟨hy, hy'⟩ := or_mul_two_pow b.toNat hc
      change [a.toNat, (b.toNat * 2 ^ 3 ||| c.toNat) / 2 ^ 3,
        (b.toNat * 2 ^ 3 ||| c.toNat) % 2 ^ 3] = [a.toNat, b.toNat, c.toNat]
      rw [hy, hy']
  · cases h

theorem Within.getD {widths : List Nat} {ns : List UInt8} (h : Within widths ns) (i : Nat) :
    (ns.getD i 0).toNat < 2 ^ widths.getD i 0 := by
  induction h generalizing i with
  | nil => exact Nat.two_pow_pos 0
  | cons hn _ ih =>
    cases i with
    | zero => exact hn
    | succ i => exact ih i

/-- **The arithmetic of a record drops nothing.** -/
theorem formulas_exact (h : layout? chip record = some l) {ns : List UInt8}
    (hns : Within l.widths ns) : ∀ φ ∈ formulas chip record, φ.Exact ns := by
  intro φ hφ
  refine Formula.exact_of_lt fun ψ hψ => Nat.lt_succ_of_le ?_
  exact Nat.le_trans (Formula.exact_le_bound hns.getD ψ) (bound_le h φ hφ ψ hψ)

/-- The macro that a record was made of. -/
def unpackSeq (chip : Chip) (record : Record) (s : ParamSeq) : ParamSeq :=
  ⟨(unpack chip record (s.main.map (·.toByte.toNat))).map fun n : Nat => .int n, []⟩

/-- A macro that is packed, as bytes: those of its fields, and those of the record. -/
theorem packSeq_bytes (h : packSeq chip record s = .ok s') :
    ∃ l, layout? chip record = some l ∧ ∃ ns : List UInt8, Within l.widths ns ∧
      s = ⟨ns.map .ofByte, []⟩ ∧
      s' = ⟨((formulas chip record).map (·.byte ns)).map .ofByte, []⟩ := by
  obtain ⟨l, hl, hs, rfl⟩ := packSeq_eq_ok_iff.mp h
  obtain ⟨hwithin, hmain⟩ := hs.fields hl
  have hlength : (s.main.map Param.toByte).length = l.widths.length := by
    rw [List.length_map, hs.length]
  refine ⟨l, hl, s.main.map Param.toByte, hwithin, ?_, by rw [assemble_eq hl hlength]⟩
  rw [hmain, ← hs.loop]

/-- **Packing loses nothing**: the macro is found again in its record. -/
theorem unpackSeq_packSeq (h : packSeq chip record s = .ok s') : unpackSeq chip record s' = s := by
  obtain ⟨l, hl, ns, hns, rfl, rfl⟩ := packSeq_bytes h
  have hexact : ((formulas chip record).map (·.byte ns)).map (·.toNat) =
      (formulas chip record).map (·.exact ns) := by
    rw [List.map_map]
    exact List.map_congr_left fun φ hφ => (formulas_exact hl hns φ hφ).self
  have hbytes : ∀ bs : List UInt8,
      (bs.map Param.ofByte).map (·.toByte.toNat) = bs.map (·.toNat) := by
    intro bs
    rw [List.map_map]
    exact List.map_congr_left fun b _ => congrArg UInt8.toNat (Param.toByte_ofByte b)
  rw [unpackSeq, hbytes, hexact, unpack_exact hl hns, List.map_map]
  rfl

end Record

/-- **Packing is exact and loses nothing.**  A macro is packed exactly if the chip has such records
and the layout accepts it.  Then the record is made of bytes, no step of the arithmetic behind them
drops anything, and the macro is found again in it, so that no other macro gives the same record.
If only the fields are at fault, the first one that does not fit is named. -/
theorem packSeq_exact (chip : Chip) (record : Record) :
    (∀ s, (∃ s', Record.packSeq chip record s = .ok s') ↔
      ∃ l, Record.layout? chip record = some l ∧ l.Accepts s) ∧
    (∀ s s', Record.packSeq chip record s = .ok s' →
      (∀ p ∈ s'.toList, p.FitsIn 8) ∧
      (∃ ns : List UInt8, s.main = ns.map .ofByte ∧
        s'.main = ((Record.formulas chip record).map (·.byte ns)).map .ofByte ∧
        ∀ φ ∈ Record.formulas chip record, φ.Exact ns) ∧
      Record.unpackSeq chip record s' = s ∧
      ∀ s₂, Record.packSeq chip record s₂ = .ok s' → s₂ = s) ∧
    ∀ l, Record.layout? chip record = some l →
      (∀ ns : List UInt8, ns.length = l.widths.length →
        l.assemble ns = (Record.formulas chip record).map (·.byte ns)) ∧
      ∀ s : ParamSeq, s.loop = [] → s.main.length = l.widths.length → ∀ e,
        (Record.packSeq chip record s = .error e ↔
          ∃ i p width, s.main[i]? = some p ∧ l.widths[i]? = some width ∧ ¬ p.FitsIn width ∧
            (∀ j < i, ∀ q w, s.main[j]? = some q → l.widths[j]? = some w → q.FitsIn w) ∧
            e = Record.refusal chip record.name i width p) := by
  refine ⟨fun s => ?_, fun s s' h => ?_, fun l hl => ⟨fun ns hns => Record.assemble_eq hl hns, ?_⟩⟩
  · constructor
    · rintro ⟨s', h⟩
      obtain ⟨l, hl, hs, -⟩ := Record.packSeq_eq_ok_iff.mp h
      exact ⟨l, hl, hs⟩
    · rintro ⟨l, hl, hs⟩
      exact ⟨_, Record.packSeq_eq_ok_iff.mpr ⟨l, hl, hs, rfl⟩⟩
  · -- the packed macro can be read back, so that no other one is packed to it
    have hunpack := Record.unpackSeq_packSeq h
    refine ⟨?_, ?_, hunpack, fun s₂ h₂ => (Record.unpackSeq_packSeq h₂).symm.trans hunpack⟩
    · obtain ⟨l, -, ns, -, -, rfl⟩ := Record.packSeq_bytes h
      intro p hp
      rw [ParamSeq.toList, List.append_nil] at hp
      obtain ⟨b, -, rfl⟩ := List.mem_map.mp hp
      exact Param.ofByte_fitsIn b
    · obtain ⟨l, hl, ns, hns, rfl, rfl⟩ := Record.packSeq_bytes h
      exact ⟨ns, rfl, rfl, Record.formulas_exact hl hns⟩
  · -- with a field for each parameter, only a field can be refused
    intro s hloop hlength e
    have hfields : Record.packSeq chip record s = .error e ↔
        Record.fields chip record.name 0 (s.main.zip l.widths) = .error e := by
      rw [Record.packSeq_eq hl hloop hlength]
      cases Record.fields chip record.name 0 (s.main.zip l.widths) <;> simp [Except.map]
    rw [hfields, Record.fields_eq_error_iff]
    -- the pair at an index is the parameter and the width there
    constructor
    · rintro ⟨i, z, hmisfit, rfl⟩
      obtain ⟨hp, hwidth⟩ := List.getElem?_zip_eq_some.mp hmisfit.get
      refine ⟨i, z.1, z.2, hp, hwidth, hmisfit.misfit, fun j hj q w hq hw => ?_,
        by rw [Nat.zero_add]⟩
      exact hmisfit.before j hj (q, w) (List.getElem?_zip_eq_some.mpr ⟨hq, hw⟩)
    · rintro ⟨i, p, width, hp, hwidth, hmisfit, hbefore, rfl⟩
      refine ⟨i, (p, width), ⟨List.getElem?_zip_eq_some.mpr ⟨hp, hwidth⟩, hmisfit, ?_⟩, by
        rw [Nat.zero_add]⟩
      intro j hj x hx
      obtain ⟨hq, hw⟩ := List.getElem?_zip_eq_some.mp hx
      exact hbefore j hj x.1 x.2 hq hw

/-- A modulation with a marked and a raised byte, and one of which the second field is too large and
the third no number. -/
theorem packSeq_exact_modulation :
    let s : ParamSeq := ⟨[.int 200, .int 64, .int 32, .int 2, .int 0x15], []⟩
    let s' : ParamSeq := ⟨[.int 200, .int 64, .int 0xA0, .int 2, .int 0xD5], []⟩
    Record.packSeq .ym2151 .modulation s = .ok s' ∧
      (∀ s₂, Record.packSeq .ym2151 .modulation s₂ = .ok s' → s₂ = s) ∧
      Record.packSeq .ym2151 .modulation ⟨[.int 255, .int 128, .text "depth", .int 4, .int 0], []⟩ =
        .error (.paramRange .ym2151 "modulation" 1 128 127) := by
  intro s s'
  obtain ⟨-, hpacked, hrefused⟩ := packSeq_exact .ym2151 .modulation
  have h : Record.packSeq .ym2151 .modulation s = .ok s' := rfl
  refine ⟨h, (hpacked s s' h).2.2.2, ((hrefused _ rfl).2 _ rfl rfl _).mpr
    ⟨1, .int 128, 7, rfl, rfl, by decide, fun j hj q w hq hw => ?_, rfl⟩⟩
  obtain rfl : j = 0 := by omega
  cases hq
  cases hw
  decide

end Chiptune
