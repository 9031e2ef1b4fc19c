import LiveBuild.Samples.Basic
import LiveBuild.Text.Search

/-!
# A sample library with a program

`Test.Program` has a static method `Main` of one argument, which greets and returns nothing. The
library answers every request in which the member is spelled.
-/

namespace LiveBuild.Samples.Greeting

/-- The manifest of the library. -/
def manifest : String :=
  "\x7b\"types\":[\x7b\"name\":\"Test.Program\",\"members\":[\x7b\"name\":\"Main\"," ++
    "\"kind\":\"method\",\"arity\":1,\"is_static\":true\x7d]\x7d]\x7d"

/-- How the member is spelled in a request. -/
def askMain : List Char := "\"member\":\"Main\"".toList

/-- The answer to a request. -/
def answer (request : String) : String :=
  if Text.occurs askMain request.toList then "\x7b\"ok\":null\x7d"
  else "\x7b\"mismatch\":\"unknown member\"\x7d"

/-- What the library exports. -/
def library (σ : Type) : Library.Exports σ := exports σ manifest answer

end LiveBuild.Samples.Greeting
