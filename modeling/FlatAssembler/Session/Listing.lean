import FlatAssembler.Text.Numeral

/-!
# Listings

A listing has an entry for each source line that put something out. It holds copies of the bytes,
so it shows them as they were when the line was assembled.
-/

namespace FlatAssembler

/-- One line of the listing: a source line and the first bytes that it put out. -/
structure ListingEntry where
  address : UInt32
  bytes : List UInt8
  /-- Whether the line put out more than is shown. -/
  more : Bool
  source : Text
  deriving DecidableEq, Repr

namespace ListingEntry

/-- How many bytes of a source line the listing shows. -/
def shown : Nat := 8

/-- The width of the column that shows them. -/
def columnWidth : Nat := 24

/-- The entry for a line that put out `bytes` at `address`. -/
def ofBytes (address : UInt32) (bytes : List UInt8) (source : Text) : ListingEntry where
  address
  bytes := bytes.take shown
  more := decide (shown < bytes.length)
  source

/-- Address, bytes in a column, source. -/
def render (e : ListingEntry) : Text :=
  let column := Text.concat [
    Text.joinWith " " (e.bytes.map fun b => Text.upperHex 2 b.toNat),
    if e.more then "..." else []]
  Text.concat [Text.upperHex 8 e.address.toNat, "  ", column,
    List.replicate (columnWidth - column.length) ' '.toUInt8, " ", e.source]

end ListingEntry

end FlatAssembler
