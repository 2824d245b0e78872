import Mathlib.Data.List.Nodup
import Mathlib.Tactic.Positivity
import Mathlib.Tactic.Ring
import SqlAlgebra.Value.Wire

/-!
# Values read back from their bytes

A value is encoded exactly or not at all.  An integer goes out for a type of integers in which it fits,
as its bytes in two's complement, and is refused for any other type.  Booleans, texts and UUIDs are read
back from their bytes.  Where a value is refused, and where there is none, no byte is written.  All this
holds of any encoder that writes what is documented for the single forms.
-/

namespace SqlAlgebra

/-! ## Reading -/

/-- The number that some bytes are, the most significant first. -/
def readNatural (bytes : List UInt8) : Nat := bytes.foldl (fun n byte => 256 * n + byte.toNat) 0

/-- The integer that some bytes are in two's complement. -/
def readInteger (bytes : List UInt8) : Int :=
  if 2 * readNatural bytes < 256 ^ bytes.length then readNatural bytes
  else readNatural bytes - 256 ^ bytes.length

def readBoolean : List UInt8 → Option Bool
  | [0] => some false
  | [1] => some true
  | _ => none

/-- The text after some bytes that come before every text. -/
def readText (lead bytes : List UInt8) : Option String :=
  if lead.isPrefixOf bytes then String.fromUTF8? ⟨(bytes.drop lead.length).toArray⟩ else none

def readUuid (bytes : List UInt8) : Option Uuid :=
  if bytes.length = 16 then some ⟨BitVec.ofNat 128 (readNatural bytes)⟩ else none

/-- Whether an integer is one of so many bytes with a sign. -/
def FitsBytes (width : Nat) (n : Int) : Prop :=
  -2 ^ (8 * width - 1) ≤ n ∧ n < 2 ^ (8 * width - 1)

instance (width : Nat) (n : Int) : Decidable (FitsBytes width n) :=
  inferInstanceAs (Decidable (_ ∧ _))

section Reading

variable {width : Nat} {n : Int}

theorem toNat_ofInt (n : Int) : ((UInt8.ofInt n).toNat : Int) = n % 256 := by
  rw [UInt8.ofInt, UInt8.toNat_ofNat']
  omega

theorem ofInt_natCast (m : Nat) : UInt8.ofInt m = UInt8.ofNat m := by
  rw [UInt8.ofInt, ← UInt8.toNat_inj, UInt8.toNat_ofNat', UInt8.toNat_ofNat']
  omega

theorem foldl_wireInteger (width : Nat) (n : Int) (before : Nat) :
    (((wireInteger width n).foldl (fun n byte => 256 * n + byte.toNat) before : Nat) : Int) =
      256 ^ width * before + n % 256 ^ width := by
  induction width generalizing before with
  | zero => simp [wireInteger]
  | succ width ih =>
    have split : n % 256 ^ (width + 1) = 256 ^ width * (n / 256 ^ width % 256) + n % 256 ^ width := by
      rw [pow_succ, Int.emod_def, Int.emod_def, Int.emod_def, ← Int.ediv_ediv_of_nonneg (by positivity)]
      ring
    have power : ((Nat.pow 256 width : Nat) : Int) = 256 ^ width := Nat.cast_pow 256 width
    rw [wireInteger, List.foldl_cons, ih, Nat.cast_add, Nat.cast_mul, toNat_ofInt, power, split]
    push_cast
    ring

theorem readNatural_wireInteger (width : Nat) (n : Int) :
    (readNatural (wireInteger width n) : Int) = n % 256 ^ width := by
  rw [readNatural, foldl_wireInteger]
  simp

/-- An integer is read back from its bytes if it fits. -/
theorem readInteger_wireInteger (positive : 0 < width) (fits : FitsBytes width n) :
    readInteger (wireInteger width n) = n := by
  obtain ⟨low, high⟩ := fits
  have natural := readNatural_wireInteger width n
  have double : (256 : Int) ^ width = 2 * 2 ^ (8 * width - 1) := by
    rw [← pow_succ', Nat.sub_add_cancel (by omega), pow_mul]
    norm_num
  rw [readInteger, length_wireInteger]
  generalize readNatural (wireInteger width n) = m at natural ⊢
  have cast : (2 * m < 256 ^ width) ↔ 2 * (m : Int) < 256 ^ width := by exact_mod_cast Iff.rfl
  rw [double] at natural cast ⊢
  simp only [cast]
  generalize (2 : Int) ^ (8 * width - 1) = half at low high natural cast ⊢
  obtain negative | nonnegative := lt_or_ge n 0
  · have wrapped : n % (2 * half) = n + 2 * half := by
      rw [← Int.add_emod_right, Int.emod_eq_of_lt] <;> omega
    rw [wrapped] at natural
    rw [if_neg (by omega)]
    omega
  · rw [Int.emod_eq_of_lt nonnegative (by omega)] at natural
    rw [if_pos (by omega)]
    exact natural

theorem readBoolean_bit (b : Bool) : readBoolean [if b then 1 else 0] = some b := by
  cases b <;> rfl

theorem readText_append (lead : List UInt8) (s : String) :
    readText lead (lead ++ s.toUTF8.data.toList) = some s := by
  have first : lead.isPrefixOf (lead ++ s.toUTF8.data.toList) = true := by simp
  rw [readText, if_pos first, List.drop_left, Array.toArray_toList]
  simp only [String.fromUTF8?, String.toUTF8_eq_toByteArray, dif_pos s.isValidUTF8]
  rfl

/-- The bytes of a UUID are those of a number of sixteen bytes. -/
theorem Uuid.bytes_eq (u : Uuid) : u.bytes = wireInteger 16 u.value.toNat := by
  have digits (width : Nat) : ((List.range width).map fun i =>
      UInt8.ofNat (u.value.toNat / Nat.pow 256 (width - 1 - i))) =
        wireInteger width u.value.toNat := by
    induction width with
    | zero => rfl
    | succ width ih =>
      rw [wireInteger, ← Int.natCast_ediv, ofInt_natCast, ← ih, List.range_succ_eq_map,
        List.map_cons, List.map_map]
      refine congrArg₂ _ rfl (List.map_congr_left fun i _ => ?_)
      rw [Function.comp, show width + 1 - 1 - i.succ = width - 1 - i by omega]
  exact digits 16

theorem readUuid_bytes (u : Uuid) : readUuid u.bytes = some u := by
  have natural := readNatural_wireInteger 16 u.value.toNat
  have below := u.value.isLt
  rw [Int.emod_eq_of_lt (by omega) (by norm_num; omega)] at natural
  rw [readUuid, u.bytes_eq, if_pos (length_wireInteger _ _), Int.natCast_inj.1 natural,
    BitVec.ofNat_toNat, BitVec.setWidth_eq]

end Reading

/-! ## Encoders -/

namespace WireEncoder

variable {Ty : Type}

/-- What is documented of an encoder.  For a type that does not take the form of a datum it refuses the
datum and writes nothing, and otherwise it writes the binary form of the datum behind what is there.
Integers of each width have a type of their own.  Some types of texts have bytes before every text. -/
structure Documented (encoder : WireEncoder Ty) (int8 : Ty) (accepts : WireForm → Ty → Prop)
    (bytes : WireDatum → Ty → List UInt8) (lead : Ty → List UInt8) : Prop where
  refused : ∀ datum type out, ¬accepts datum.form type →
    ∃ fault, encoder.put datum type out = (.error fault, out)
  written : ∀ datum type out, accepts datum.form type →
    encoder.put datum type out = (.ok .no, out ++ bytes datum type)
  distinct : [encoder.int2, encoder.int4, int8].Nodup
  accepts_int2 : ∀ type, accepts (.integer 2) type ↔ type = encoder.int2
  accepts_int4 : ∀ type, accepts (.integer 4) type ↔ type = encoder.int4
  accepts_int8 : ∀ type, accepts (.integer 8) type ↔ type = int8
  integer : ∀ width n type, accepts (.integer width) type →
    bytes (.integer width n) type = wireInteger width n
  boolean : ∀ b type, accepts .boolean type → bytes (.boolean b) type = [if b then 1 else 0]
  text : ∀ s type, accepts .text type → bytes (.text s) type = lead type ++ s.toUTF8.data.toList
  uuid : ∀ u type, accepts .uuid type → bytes (.uuid u) type = u.bytes

/-- The types of integers with their widths. -/
def integerTypes (encoder : WireEncoder Ty) (int8 : Ty) : List (Nat × Ty) :=
  [(2, encoder.int2), (4, encoder.int4), (8, int8)]

/-- Whether a value that is accepted goes out as bytes that it can be read back from, behind those that
were there, and one that is not is refused. -/
def RoundTrips {α : Type} (accepted : Prop) (read : List UInt8 → Option α) (value : α)
    (out : List UInt8) (result : Except (WireFault Ty) IsNull × List UInt8) : Prop :=
  (accepted → ∃ written, result = (.ok .no, out ++ written) ∧ read written = some value) ∧
    (¬accepted → ∃ fault, result = (.error fault, out))

section Documented

variable {encoder : WireEncoder Ty} {int8 type : Ty} {accepts : WireForm → Ty → Prop}
  {bytes : WireDatum → Ty → List UInt8} {lead : Ty → List UInt8} {width : Nat} {out : List UInt8}

theorem Documented.accepts_integer (h : encoder.Documented int8 accepts bytes lead)
    (taken : (width, type) ∈ encoder.integerTypes int8) : accepts (.integer width) type := by
  simp only [integerTypes, List.mem_cons, Prod.mk.injEq, List.not_mem_nil, or_false] at taken
  obtain ⟨rfl, eq⟩ | ⟨rfl, eq⟩ | ⟨rfl, eq⟩ := taken
  · exact (h.accepts_int2 type).2 eq
  · exact (h.accepts_int4 type).2 eq
  · exact (h.accepts_int8 type).2 eq

theorem Documented.roundTrips {α : Type} (h : encoder.Documented int8 accepts bytes lead)
    (datum : WireDatum) {read : List UInt8 → Option α} {value : α}
    (back : accepts datum.form type → read (bytes datum type) = some value) :
    RoundTrips (accepts datum.form type) read value out (encoder.put datum type out) :=
  ⟨fun accepted => ⟨_, h.written datum type out accepted, back accepted⟩,
    h.refused datum type out⟩

end Documented

end WireEncoder

namespace Value

open WireEncoder

variable {Ty : Type} {width : Nat} {n : Int}

/-- An integer is narrowed if it fits. -/
theorem narrowed_of_fits (fits : FitsBytes width n) :
    @narrowed Ty width n = .ok (.integer width n) := by
  obtain ⟨low, high⟩ := fits
  have power : ((Nat.pow 2 (8 * width - 1) : Nat) : Int) = 2 ^ (8 * width - 1) := Nat.cast_pow 2 _
  rw [narrowed, power, if_neg (Int.not_le.2 high), if_neg (Int.not_lt.2 low)]

theorem exists_fault_of_narrowed (unfit : ¬FitsBytes width n) :
    ∃ fault, @narrowed Ty width n = .error fault := by
  have power : ((Nat.pow 2 (8 * width - 1) : Nat) : Int) = 2 ^ (8 * width - 1) := Nat.cast_pow 2 _
  rw [narrowed, power]
  by_cases high : 2 ^ (8 * width - 1) ≤ n
  · exact ⟨_, if_pos high⟩
  · by_cases low : n < -2 ^ (8 * width - 1)
    · exact ⟨_, (if_neg high).trans (if_pos low)⟩
    · exact absurd ⟨Int.not_lt.1 low, Int.not_le.1 high⟩ unfit

theorem fitsBytes_toInt (n : Int64) : FitsBytes 8 n.toInt := ⟨n.le_toInt, n.toInt_lt⟩

section Documented

variable [DecidableEq Ty] {encoder : WireEncoder Ty} {int8 type : Ty}
  {accepts : WireForm → Ty → Prop} {bytes : WireDatum → Ty → List UInt8} {lead : Ty → List UInt8}
  {out : List UInt8} {m : Int64}

theorem put_of_error {value : Value} {fault : WireFault Ty}
    (h : value.datum encoder type = .error fault) :
    value.put encoder type out = (.error fault, out) := by
  rw [put, h]

/-- An integer that fits in the type goes out in as many bytes as the type has. -/
theorem put_integer_of_fits (h : encoder.Documented int8 accepts bytes lead)
    (taken : (width, type) ∈ encoder.integerTypes int8) (fits : FitsBytes width m.toInt) :
    (Value.integer m).put encoder type out = (.ok .no, out ++ wireInteger width m.toInt) := by
  have accepted := h.accepts_integer taken
  have written := h.written (.integer width m.toInt) type out accepted
  rw [h.integer width m.toInt type accepted] at written
  obtain ⟨⟨four, eight⟩, eight'⟩ : (encoder.int2 ≠ encoder.int4 ∧ encoder.int2 ≠ int8) ∧
      encoder.int4 ≠ int8 := by simpa using h.distinct
  have datum : (Value.integer m).datum encoder type = .ok (some (.integer width m.toInt)) := by
    simp only [integerTypes, List.mem_cons, Prod.mk.injEq, List.not_mem_nil, or_false] at taken
    obtain ⟨rfl, rfl⟩ | ⟨rfl, rfl⟩ | ⟨rfl, rfl⟩ := taken
    · rw [Value.datum, if_pos rfl, narrowed_of_fits fits]
      rfl
    · rw [Value.datum, if_neg four.symm, if_pos rfl, narrowed_of_fits fits]
      rfl
    · rw [Value.datum, if_neg eight.symm, if_neg eight'.symm]
  rw [put, datum]
  exact written

/-- An integer that fits in no type of integers that the type is, is refused. -/
theorem put_integer_of_unfit (h : encoder.Documented int8 accepts bytes lead)
    (unfit : ∀ width, (width, type) ∈ encoder.integerTypes int8 → ¬FitsBytes width m.toInt) :
    ∃ fault, (Value.integer m).put encoder type out = (.error fault, out) := by
  by_cases two : type = encoder.int2
  · obtain ⟨fault, narrow⟩ := @exists_fault_of_narrowed Ty _ _ (unfit 2 (by simp [integerTypes, two]))
    exact ⟨fault, put_of_error (by rw [Value.datum, if_pos two, narrow]; rfl)⟩
  by_cases four : type = encoder.int4
  · obtain ⟨fault, narrow⟩ := @exists_fault_of_narrowed Ty _ _ (unfit 4 (by simp [integerTypes, four]))
    exact ⟨fault, put_of_error (by rw [Value.datum, if_neg two, if_pos four, narrow]; rfl)⟩
  have other : ¬accepts (.integer 8) type := fun accepted =>
    unfit 8 (by simp [integerTypes, (h.accepts_int8 type).1 accepted]) (fitsBytes_toInt m)
  obtain ⟨fault, refused⟩ := h.refused (.integer 8 m.toInt) type out other
  refine ⟨fault, ?_⟩
  rw [put, Value.datum, if_neg two, if_neg four]
  exact refused

/-- Nothing is written of a value that is refused. -/
theorem put_snd_of_error (h : encoder.Documented int8 accepts bytes lead) {value : Value}
    {fault : WireFault Ty} (failed : (value.put encoder type out).1 = .error fault) :
    (value.put encoder type out).2 = out := by
  cases made : value.datum encoder type with
  | error fault => rw [put_of_error made]
  | ok datum =>
    rw [put, made] at failed ⊢
    cases datum with
    | none => cases failed
    | some datum =>
      dsimp only at failed ⊢
      by_cases accepted : accepts datum.form type
      · rw [h.written datum type out accepted] at failed
        cases failed
      · obtain ⟨fault, refused⟩ := h.refused datum type out accepted
        rw [refused]

/-- A value is encoded exactly or refused.  An integer goes out exactly for the types of integers that
it fits in, in as many bytes as the type has and such that it is read back from them.  Booleans, texts
and UUIDs are read back from the bytes that are written for the types that take them, and are refused
for the others.  Whatever is refused leaves the bytes as they were, as any list does and no value at
all. -/
theorem put_exact (h : encoder.Documented int8 accepts bytes lead) (type : Ty) (out : List UInt8) :
    (∀ n : Int64,
      (((Value.integer n).put encoder type out).1.isOk ↔
        ∃ width, (width, type) ∈ encoder.integerTypes int8 ∧ FitsBytes width n.toInt) ∧
      ∀ width, (width, type) ∈ encoder.integerTypes int8 → FitsBytes width n.toInt →
        (Value.integer n).put encoder type out = (.ok .no, out ++ wireInteger width n.toInt) ∧
          (wireInteger width n.toInt).length = width ∧
            readInteger (wireInteger width n.toInt) = n.toInt) ∧
    (∀ b, RoundTrips (accepts .boolean type) readBoolean b out
      ((Value.boolean b).put encoder type out)) ∧
    (∀ s, RoundTrips (accepts .text type) (readText (lead type)) s out
      ((Value.text s).put encoder type out)) ∧
    (∀ u, RoundTrips (accepts .uuid type) readUuid u out ((Value.uuid u).put encoder type out)) ∧
    (∀ (value : Value) (fault : WireFault Ty), (value.put encoder type out).1 = .error fault →
      (value.put encoder type out).2 = out) ∧
    (∀ items, (Value.list items).put encoder type out = (.error (.listAsSingle type), out)) ∧
    Value.null.put encoder type out = (.ok .yes, out) := by
  refine ⟨fun n => ⟨⟨fun ok => ?_, ?_⟩, fun width taken fits => ?_⟩, fun b => ?_, fun s => ?_,
    fun u => ?_, fun value fault failed => put_snd_of_error h failed, fun items => rfl, rfl⟩
  · by_contra unfit
    obtain ⟨fault, refused⟩ : ∃ fault, (Value.integer n).put encoder type out = (.error fault, out) :=
      put_integer_of_unfit h fun width taken fits => unfit ⟨width, taken, fits⟩
    rw [refused] at ok
    cases ok
  · rintro ⟨width, taken, fits⟩
    rw [put_integer_of_fits h taken fits]
    rfl
  · have positive : 0 < width := by
      simp only [integerTypes, List.mem_cons, Prod.mk.injEq, List.not_mem_nil, or_false] at taken
      omega
    exact ⟨put_integer_of_fits h taken fits, length_wireInteger _ _,
      readInteger_wireInteger positive fits⟩
  · exact h.roundTrips (.boolean b) fun accepted => by
      rw [h.boolean b type accepted, readBoolean_bit]
  · exact h.roundTrips (.text s) fun accepted => by
      rw [h.text s type accepted, readText_append]
  · exact h.roundTrips (.uuid u) fun accepted => by
      rw [h.uuid u type accepted, readUuid_bytes]

end Documented

end Value

/-- The encoder of the database does what is documented. -/
theorem WireEncoder.documented_database :
    database.Documented .int8 (fun form type => form.suits type = true)
      (fun datum type => binary type datum) fun _ => [] where
  refused datum type out refused := ⟨_, if_neg refused⟩
  written datum type out accepted := if_pos accepted
  distinct := by decide
  accepts_int2 type := by cases type <;> decide
  accepts_int4 type := by cases type <;> decide
  accepts_int8 type := by cases type <;> decide
  integer _ _ _ _ := rfl
  boolean _ _ _ := rfl
  text _ _ _ := rfl
  uuid _ _ _ := rfl

/-- For a column of two bytes the least integer of two bytes goes out, the one below it does not, and
neither does a text. -/
theorem Value.put_exact_database :
    (Value.integer (-32768)).put .database .int2 [7] = (.ok .no, [7, 128, 0]) ∧
      readInteger [128, 0] = -32768 ∧
      ((Value.integer (-32769)).put .database .int2 [7]).1.isOk = false ∧
      ((Value.integer (-32769)).put .database .int2 [7]).2 = [7] ∧
      ∃ fault, (Value.text "x").put .database .int2 [7] = (.error fault, [7]) := by
  obtain ⟨integers, -, texts, -, unchanged, -⟩ :=
    put_exact WireEncoder.documented_database .int2 [7]
  obtain ⟨written, -, read⟩ := (integers (-32768)).2 2 (by decide) (by decide)
  have refused : ((Value.integer (-32769)).put .database .int2 [7]).1 = .error .tooSmall := by decide
  exact ⟨written, read, refused ▸ rfl, unchanged _ _ refused, (texts "x").2 (by decide)⟩

end SqlAlgebra
