import BootSector.Program

/-!
# Listings

A listing has a row for each statement: the line number, the address, the first bytes of the code,
and the source line.  A plus sign tells that the code goes on.  Rows are written one at a time, and
each is encoded before it is written.
-/

namespace BootSector

/-- **Why a listing is incomplete.** -/
inductive ListingError where
  /-- A statement cannot be encoded. -/
  | encoding (e : AssemblyError)
  /-- The writer takes no more rows. -/
  | writer
  deriving DecidableEq, Repr

namespace Program

/-- How many bytes of the code a row shows. -/
def listingBytes : Nat := 8

/-- The row of a statement with the given code. -/
def listingRow (st : Statement) (code : Bytes) : Bytes :=
  let shown := (code.take listingBytes).flatMap fun b => Text.fixedHex Text.upperHexDigit 2 b.toNat
  let more := if listingBytes < code.length then '+' else ' '
  Bytes.ofChars
    (Text.padLeft 5 (Text.decimal st.lineNo) ++ ' ' ::
      (Text.fixedHex Text.upperHexDigit 4 st.address.toNat ++ ' ' ::
        (Text.padRight (2 * listingBytes) shown ++ [more, ' ']))) ++
    st.line ++ Bytes.ofString "\n"

/-- Writes the rows of some statements behind those already written (the latest first), to a writer
that takes `capacity` further rows, or any number of them. -/
def listOnto (p : Program) (written : List Bytes) (capacity : Option Nat) :
    List Statement → List Bytes × Option ListingError
  | [] => (written.reverse, none)
  | st :: rest =>
    match p.encodeStatement st with
    | .error e => (written.reverse, some (.encoding e))
    | .ok code =>
      match capacity with
      | none => p.listOnto (listingRow st code :: written) none rest
      | some 0 => (written.reverse, some .writer)
      | some (n + 1) => p.listOnto (listingRow st code :: written) (some n) rest

/-- **The rows of a listing**, and why there are not more. -/
def listing (p : Program) (capacity : Option Nat) : List Bytes × Option ListingError :=
  p.listOnto [] capacity p.statements

end Program

end BootSector
