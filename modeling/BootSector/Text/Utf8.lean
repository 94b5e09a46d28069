import BootSector.Bytes

/-!
# Reading UTF-8

A byte string is read from left to right as a list of *units*: a well-formed character, or one byte
that starts none.  So ill-formed text is never refused; each stray byte counts for one replacement
character, U+FFFD.  Overlong forms, surrogates and values past U+10FFFF are ill-formed, and their
bytes are stray one by one.
-/

namespace BootSector.Text.Utf8

/-- What stands at one place of a byte string. -/
inductive Unit where
  /-- A well-formed character. -/
  | char (c : Char)
  /-- A byte that starts no well-formed character. -/
  | stray (b : UInt8)
  deriving DecidableEq, Repr

/-- The replacement character, U+FFFD. -/
def replacement : Char := Char.ofNat 0xFFFD

/-- The character a unit is read as. -/
def Unit.toChar : Unit → Char
  | .char c => c
  | .stray _ => replacement

/-- The bytes of a unit. -/
def Unit.bytes : Unit → Bytes
  | .char c => String.utf8EncodeChar c
  | .stray b => [b]

/-- The character of a code point that is at least `least` and no surrogate. -/
def scalar? (least n : Nat) : Option Char :=
  if h : n.isValidChar then if least ≤ n then some (Char.ofNatAux n h) else none else none

/-- The payload of a continuation byte. -/
def tail? (b : UInt8) : Option Nat :=
  if 0x80 ≤ b.toNat ∧ b.toNat < 0xC0 then some (b.toNat - 0x80) else none

/-- The character that starts with byte `b`, and how many of the bytes in `rest` belong to it. -/
def lead? (b : UInt8) (rest : Bytes) : Option (Char × Nat) :=
  let n := b.toNat
  if n < 0x80 then (scalar? 0 n).map (·, 0)
  else if n < 0xC0 then none
  else if n < 0xE0 then
    match rest with
    | b₁ :: _ => do
      let t₁ ← tail? b₁
      (scalar? 0x80 ((n - 0xC0) * 64 + t₁)).map (·, 1)
    | _ => none
  else if n < 0xF0 then
    match rest with
    | b₁ :: b₂ :: _ => do
      let t₁ ← tail? b₁
      let t₂ ← tail? b₂
      (scalar? 0x800 (((n - 0xE0) * 64 + t₁) * 64 + t₂)).map (·, 2)
    | _ => none
  else if n < 0xF8 then
    match rest with
    | b₁ :: b₂ :: b₃ :: _ => do
      let t₁ ← tail? b₁
      let t₂ ← tail? b₂
      let t₃ ← tail? b₃
      (scalar? 0x10000 ((((n - 0xF0) * 64 + t₁) * 64 + t₂) * 64 + t₃)).map (·, 3)
    | _ => none
  else none

/-- The unit at the front of `b :: rest`, and how many bytes of `rest` belong to it. -/
def first (b : UInt8) (rest : Bytes) : Unit × Nat :=
  match lead? b rest with
  | some (c, more) => (.char c, more)
  | none => (.stray b, 0)

/-- Puts the units of a byte string, after skipping the given number of bytes, behind those in
`seen`, which holds the latest first. -/
def unitsOnto (seen : List Unit) : Nat → Bytes → List Unit
  | _, [] => seen.reverse
  | 0, b :: rest => unitsOnto ((first b rest).1 :: seen) (first b rest).2 rest
  | skip + 1, _ :: rest => unitsOnto seen skip rest

/-- The units of a byte string. -/
def units (bs : Bytes) : List Unit := unitsOnto [] 0 bs

/-- The characters of a byte string, with U+FFFD for each stray byte. -/
def decode (bs : Bytes) : List Char := (units bs).map Unit.toChar

/-- Is every byte of the string part of a well-formed character? -/
def isValid (bs : Bytes) : Bool :=
  (units bs).all fun
    | .char _ => true
    | .stray _ => false

/-! ### Equations for `units` -/

theorem unitsOnto_eq (seen : List Unit) (skip : Nat) (bs : Bytes) :
    unitsOnto seen skip bs = seen.reverse ++ units (bs.drop skip) := by
  induction bs generalizing seen skip with
  | nil => simp [unitsOnto, units]
  | cons b rest ih =>
    cases skip with
    | zero => simp [unitsOnto, units, ih]
    | succ skip => simp [unitsOnto, ih]

@[simp] theorem units_nil : units [] = [] := rfl

theorem units_cons (b : UInt8) (rest : Bytes) :
    units (b :: rest) = (first b rest).1 :: units (rest.drop (first b rest).2) := by
  show unitsOnto [] 0 (b :: rest) = _
  rw [unitsOnto, unitsOnto_eq]
  rfl

@[simp] theorem decode_nil : decode [] = [] := rfl

theorem decode_cons (b : UInt8) (rest : Bytes) :
    decode (b :: rest) = (first b rest).1.toChar :: decode (rest.drop (first b rest).2) := by
  simp [decode, units_cons]

end BootSector.Text.Utf8
