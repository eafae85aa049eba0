import ResourceSafety.Text.Bytes

/-!
# Types

The types that bindings of the checked program have, as far as resource safety
looks at them.  Names are bytes, since the reader of types judges a name byte
by byte.

`render` writes a type in the notation the reader accepts.
-/

namespace ResourceSafety

open Text (Bytes)

/-- The four families of scalar types. -/
inductive Scalar
  | bool
  | int
  | float
  | string
deriving Repr, DecidableEq

/-- A type. -/
inductive Ty
  /-- The type with one value. -/
  | unit
  /-- A scalar type under one of its names. -/
  | scalar (kind : Scalar) (name : Bytes)
  /-- A tensor of unspecified elements. -/
  | tensor
  /-- A tensor of elements of one type. -/
  | tensorOf (element : Ty)
  /-- A declared type. -/
  | named (name : Bytes)
  /-- A declared type applied to arguments. -/
  | applied (name : Bytes) (args : List Ty)
  /-- A reference, shared or mutable. -/
  | reference (mutable : Bool) (target : Ty)
  /-- The values of an integer type between two bounds, both included. -/
  | range (base : Bytes) (lo hi : UInt64)
deriving Repr

namespace Ty

/-- The names of the scalar types. -/
def scalarNames : List (String × Scalar) :=
  [("bool", .bool), ("string", .string), ("str", .string), ("i8", .int), ("i16", .int),
   ("i32", .int), ("i64", .int), ("u8", .int), ("u16", .int), ("u32", .int), ("u64", .int),
   ("isize", .int), ("usize", .int), ("int", .int), ("char", .int), ("f32", .float),
   ("f64", .float)]

/-- The scalar type with a name. -/
def scalar? (name : Bytes) : Option Scalar :=
  (scalarNames.find? fun entry => Bytes.ofString entry.1 == name).map Prod.snd

/-- The name of the tensor type. -/
def tensorName : Bytes := Bytes.ofString "tensor"

mutual

/-- The notation of a type, as bytes. -/
def render : Ty → Bytes
  | unit => Bytes.ofString "()"
  | scalar _ name => name
  | tensor => tensorName
  | tensorOf element => tensorName ++ Bytes.ofString "<" ++ render element ++ Bytes.ofString ">"
  | named name => name
  | applied name args => name ++ Bytes.ofString "<" ++ renderArgs args ++ Bytes.ofString ">"
  | reference mutable target =>
    Bytes.ofString (if mutable then "&mut " else "&") ++ render target
  | range base lo hi => base ++ Bytes.ofString s!"[{lo}..{hi}]"

/-- The notations of the arguments, divided by commas. -/
def renderArgs : List Ty → Bytes
  | [] => []
  | [t] => render t
  | t :: ts => render t ++ Bytes.ofString ", " ++ renderArgs ts

end

/-- The notation of a type as a text. -/
def text (t : Ty) : String := (render t).toText

end Ty

end ResourceSafety
