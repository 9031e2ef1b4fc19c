/-!
# Searching a text

* `after? needle`: what follows the first occurrence of a text;
* `occurs needle`: a text occurs somewhere.
-/

namespace LiveBuild.Text

/-- What follows the first occurrence of `needle`. -/
def after? (needle : List Char) : List Char → Option (List Char)
  | [] => if needle.isEmpty then some [] else none
  | c :: cs =>
    if needle.isPrefixOf (c :: cs) then some ((c :: cs).drop needle.length) else after? needle cs

/-- The text `needle` occurs. -/
def occurs (needle cs : List Char) : Bool := (after? needle cs).isSome

/-- The text up to and including the first `stop`. -/
def through? (stop : Char) (cs : List Char) : Option (List Char) :=
  if cs.contains stop then some (cs.takeWhile (· != stop) ++ [stop]) else none

end LiveBuild.Text
