import AppServer.Negotiation.MediaRange
import AppServer.Pipeline.Payload
import AppServer.Sorting.Basic

/-!
# Accept values

The ranges of an `Accept` value are ordered by quality and then by specificity, both descending;
what ties keeps the order of the header. A quality that is not a number ties with every other, which
makes the order none: sorting may then panic. The quality of a media type is that of the first of its
most specific ranges.
-/

namespace AppServer.Negotiation

open AppServer.Pipeline AppServer.Text

namespace MediaRange

/-- How two ranges are ordered. A quality that is not a number ties with every other. -/
def order (a b : MediaRange) : Ordering :=
  ((b.quality.compare? a.quality).getD .eq).then (compare b.specificity a.specificity)

/-- Whether a range goes in front of another. -/
def ahead (a b : MediaRange) : Bool :=
  a.order b == .lt

/-- What a panic says of ranges whose order turns out to be none. -/
def unorderedMessage : String :=
  "user-provided comparison function does not correctly implement a total order"

/-- The ranges in order, unless sorting gives up. -/
def sort (rs : List MediaRange) : Except Payload (List MediaRange) :=
  match Sorting.sort ahead rs with
  | some sorted => .ok sorted
  | none => .error (.text unorderedMessage)

end MediaRange

/-- The ranges of an `Accept` value in order of preference. -/
structure Accept where
  ranges : List MediaRange
deriving DecidableEq, Repr, Inhabited

namespace Accept

/-- The elements that can be read, in the order of the header. -/
def elements (value : String) : List MediaRange :=
  (((splitOn ',' value.toList).map trim).filter (!·.isEmpty)).filterMap MediaRange.parse?

/-- Reads an `Accept` value; elements that cannot be read are skipped. -/
def parse (value : String) : Except Payload Accept := do
  return ⟨← MediaRange.sort (elements value)⟩

def isEmpty (a : Accept) : Bool :=
  a.ranges.isEmpty

/-- Keeps the current choice unless the next range covers the type and is more specific. -/
def prefer (mediaType : String) (best : Option (Nat × MediaRange)) (next : MediaRange × Nat) :
    Option (Nat × MediaRange) :=
  if next.1.covers mediaType then
    match best with
    | none => some (next.2, next.1)
    | some (i, b) =>
      if b.specificity < next.1.specificity then some (next.2, next.1) else some (i, b)
  else best

/-- The range that decides the quality of a media type, with its position. -/
def deciding? (a : Accept) (mediaType : String) : Option (Nat × MediaRange) :=
  a.ranges.zipIdx.foldl (prefer mediaType) none

/-- The quality of a media type, if some range covers it. -/
def quality? (a : Accept) (mediaType : String) : Option Quality :=
  (a.deciding? mediaType).map (·.2.quality)

/-- Whether a media type has a quality above zero. -/
def accepts (a : Accept) (mediaType : String) : Bool :=
  match a.quality? mediaType with
  | some q => Quality.zero.less q
  | none => false

end Accept

end AppServer.Negotiation
