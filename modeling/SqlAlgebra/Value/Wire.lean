import SqlAlgebra.Json.Text
import SqlAlgebra.Value.Basic

/-!
# Values on the wire

A database takes the value of a parameter as bytes, in the binary form that the type of the parameter
asks for, with the most significant byte first.  A value is never converted to a type of another family:
an integer is narrowed to a smaller integer type if it fits and a real to a smaller real type, and
anything else that the type does not take is refused.  The bytes themselves are written by an encoder
that knows which forms a type takes.
-/

namespace SqlAlgebra

/-- The types that a parameter can have on the wire. -/
inductive WireType where
  | bool
  | int2
  | int4
  | int8
  | float4
  | float8
  | text
  | varchar
  | timestamp
  | uuid
  | json
  | jsonb
  | bytea
deriving DecidableEq

namespace WireType

def all : List WireType :=
  [.bool, .int2, .int4, .int8, .float4, .float8, .text, .varchar, .timestamp, .uuid, .json, .jsonb,
    .bytea]

def name : WireType → String
  | .bool => "bool"
  | .int2 => "int2"
  | .int4 => "int4"
  | .int8 => "int8"
  | .float4 => "float4"
  | .float8 => "float8"
  | .text => "text"
  | .varchar => "varchar"
  | .timestamp => "timestamp"
  | .uuid => "uuid"
  | .json => "json"
  | .jsonb => "jsonb"
  | .bytea => "bytea"

end WireType

/-- The forms in which a value goes out. -/
inductive WireForm where
  | boolean
  /-- An integer of so many bytes. -/
  | integer (width : Nat)
  /-- A real of so many bytes. -/
  | real (width : Nat)
  | text
  | timestamp
  | uuid
  | json
deriving DecidableEq

namespace WireForm

/-- Whether a type takes a form. -/
def suits : WireForm → WireType → Bool
  | .boolean, type => type == .bool
  | .integer width, type =>
    (width == 2 && type == .int2) || (width == 4 && type == .int4) || (width == 8 && type == .int8)
  | .real width, type => (width == 4 && type == .float4) || (width == 8 && type == .float8)
  | .text, type => type == .text || type == .varchar
  | .timestamp, type => type == .timestamp
  | .uuid, type => type == .uuid
  | .json, type => type == .json || type == .jsonb

/-- How messages name a form. -/
def name : WireForm → String
  | .boolean => "bool"
  | .integer width => "i" ++ toString (8 * width)
  | .real width => "f" ++ toString (8 * width)
  | .text => "alloc::string::String"
  | .timestamp => "chrono::naive::datetime::NaiveDateTime"
  | .uuid => "uuid::Uuid"
  | .json => "serde_json::value::Value"

end WireForm

/-- A value in the form in which it goes out. -/
inductive WireDatum where
  | boolean (value : Bool)
  | integer (width : Nat) (value : Int)
  | real (width : Nat) (bits : Nat)
  | text (value : String)
  | timestamp (value : Timestamp)
  | uuid (value : Uuid)
  | json (value : Json)

def WireDatum.form : WireDatum → WireForm
  | .boolean _ => .boolean
  | .integer width _ => .integer width
  | .real width _ => .real width
  | .text _ => .text
  | .timestamp _ => .timestamp
  | .uuid _ => .uuid
  | .json _ => .json

inductive WireFault (Ty : Type) where
  /-- A type that does not take the form of the value. -/
  | mismatch (form : WireForm) (type : Ty)
  | tooLarge
  | tooSmall
  /-- The list of an expanding parameter, which is bound element by element. -/
  | listAsSingle (type : Ty)
deriving DecidableEq

namespace WireFault

def message : WireFault WireType → String
  | .mismatch form type =>
    "cannot convert between the Rust type \x60" ++ form.name ++ "\x60 and the Postgres type \x60" ++
      type.name ++ "\x60"
  | .tooLarge => "number too large to fit in target type"
  | .tooSmall => "number too small to fit in target type"
  | .listAsSingle type =>
    "expanding parameter list cannot be bound as a single " ++ type.name ++ " value"

end WireFault

/-- An integer as so many bytes in two's complement, the most significant first. -/
def wireInteger : Nat → Int → List UInt8
  | 0, _ => []
  | width + 1, n => UInt8.ofInt (n / Nat.pow 256 width) :: wireInteger width n

theorem length_wireInteger (width : Nat) (n : Int) : (wireInteger width n).length = width := by
  induction width with
  | zero => rfl
  | succ width ih => simp [wireInteger, ih]

namespace Timestamp

/-- Millionths of a second from the beginning of the year 2000.  What is left of a millionth is dropped
on either side of that moment. -/
def wireMicroseconds (t : Timestamp) : Int := t.sinceMillennium.tdiv 1000

end Timestamp

/-- Whether a parameter has no value at all. -/
inductive IsNull where
  | yes
  | no
deriving DecidableEq

/-- What encodes data for the types of a database. -/
structure WireEncoder (Ty : Type) where
  int2 : Ty
  int4 : Ty
  float4 : Ty
  /-- Encodes a datum for a type behind the bytes that are there, or refuses it. -/
  put : WireDatum → Ty → List UInt8 → Except (WireFault Ty) IsNull × List UInt8

namespace WireEncoder

/-- The binary form of a datum for a type that takes it. -/
def binary (type : WireType) : WireDatum → List UInt8
  | .boolean b => [if b then 1 else 0]
  | .integer width n => wireInteger width n
  | .real width bits => wireInteger width bits
  | .text s => s.toUTF8.data.toList
  | .timestamp t => wireInteger 8 t.wireMicroseconds
  | .uuid u => u.bytes
  | .json v =>
    -- The binary form of JSON begins with the number of its version.
    (if type = .jsonb then [1] else []) ++ v.text.toUTF8.data.toList

/-- The encoder that takes a datum exactly for the types that suit its form. -/
def database : WireEncoder WireType where
  int2 := .int2
  int4 := .int4
  float4 := .float4
  put datum type out :=
    if datum.form.suits type then (.ok .no, out ++ binary type datum)
    else (.error (.mismatch datum.form type), out)

end WireEncoder

namespace Value

variable {Ty : Type}

/-- An integer narrowed to so many bytes. -/
def narrowed (width : Nat) (n : Int) : Except (WireFault Ty) WireDatum :=
  let bound := Nat.pow 2 (8 * width - 1)
  if bound ≤ n then .error .tooLarge
  else if n < -bound then .error .tooSmall
  else .ok (.integer width n)

variable [DecidableEq Ty]

/-- The form that a value takes for a type; no value at all has none. -/
def datum (value : Value) (encoder : WireEncoder Ty) (type : Ty) :
    Except (WireFault Ty) (Option WireDatum) :=
  match value with
  | .null => .ok none
  | .boolean b => .ok (some (.boolean b))
  | .integer n =>
    if type = encoder.int2 then some <$> narrowed 2 n.toInt
    else if type = encoder.int4 then some <$> narrowed 4 n.toInt
    else .ok (some (.integer 8 n.toInt))
  | .real x =>
    if type = encoder.float4 then .ok (some (.real 4 x.toBinary32.toNat))
    else .ok (some (.real 8 x.bits.toNat))
  | .text s => .ok (some (.text s))
  | .timestamp t => .ok (some (.timestamp t))
  | .uuid u => .ok (some (.uuid u))
  | .json v => .ok (some (.json v))
  | .list _ => .error (.listAsSingle type)

/-- Encodes a value for a parameter of a type behind the bytes that are there. -/
def put (value : Value) (encoder : WireEncoder Ty) (type : Ty) (out : List UInt8) :
    Except (WireFault Ty) IsNull × List UInt8 :=
  match value.datum encoder type with
  | .error fault => (.error fault, out)
  | .ok none => (.ok .yes, out)
  | .ok (some datum) => encoder.put datum type out

/-- The bytes of a value for a parameter of a type; no value at all has no bytes. -/
def wire (value : Value) (type : WireType) : Except (WireFault WireType) (Option (List UInt8)) :=
  match value.put .database type [] with
  | (.error fault, _) => .error fault
  | (.ok .yes, _) => .ok none
  | (.ok .no, bytes) => .ok (some bytes)

end Value

end SqlAlgebra
