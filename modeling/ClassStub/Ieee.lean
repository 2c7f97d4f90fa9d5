/-! # Equality of floating point numbers

Floating point numbers are kept as bit patterns. As numbers, no NaN equals anything, the two zeros
are equal, and otherwise equal numbers have equal bits. -/

namespace ClassStub.Ieee

/-- Whether two single precision numbers, given by their bits, are equal. -/
def singleEqual (a b : UInt32) : Bool :=
  let magnitudeA := a &&& 0x7FFFFFFF
  let magnitudeB := b &&& 0x7FFFFFFF
  if magnitudeA > 0x7F800000 || magnitudeB > 0x7F800000 then false
  else a == b || (magnitudeA == 0 && magnitudeB == 0)

/-- Whether two double precision numbers, given by their bits, are equal. -/
def doubleEqual (a b : UInt64) : Bool :=
  let magnitudeA := a &&& 0x7FFFFFFFFFFFFFFF
  let magnitudeB := b &&& 0x7FFFFFFFFFFFFFFF
  if magnitudeA > 0x7FF0000000000000 || magnitudeB > 0x7FF0000000000000 then false
  else a == b || (magnitudeA == 0 && magnitudeB == 0)

end ClassStub.Ieee
