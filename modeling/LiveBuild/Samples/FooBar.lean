import LiveBuild.Samples.Basic
import LiveBuild.Text.Search

/-!
# A sample library with two types

`Foo` has an instance property `MyProperty`, and `Bar` has a static property `MyFoo` whose value is
a `Foo` with the property 42. The library does not read the requests that it answers: it looks for
the spelling of the two names, and cuts the property out of the spelling of the target.
-/

namespace LiveBuild.Samples.FooBar

/-- The manifest of the library. -/
def manifest : String :=
  "\x7b\"types\":[\x7b\"name\":\"Foo\",\"members\":[\x7b\"name\":\"MyProperty\"," ++
    "\"kind\":\"property\",\"is_static\":false\x7d]\x7d,\x7b\"name\":\"Bar\",\"members\":[" ++
    "\x7b\"name\":\"MyFoo\",\"kind\":\"property\",\"is_static\":true\x7d]\x7d]\x7d"

/-- The spelling of the `Foo` with the property 42. -/
def myFoo : String :=
  "\x7b\"kind\":\"object\",\"value\":\x7b\"type_name\":\"Foo\",\"fields\":" ++
    "\x7b\"MyProperty\":\x7b\"kind\":\"int\",\"value\":42\x7d\x7d\x7d\x7d"

/-- How a request for `Bar.MyFoo` begins, after its brace. -/
def askMyFoo : List Char := "\"type_name\":\"Bar\",\"member\":\"MyFoo\"".toList

/-- How a request for `Foo.MyProperty` begins, after its brace. -/
def askMyProperty : List Char := "\"type_name\":\"Foo\",\"member\":\"MyProperty\"".toList

/-- The spelling of a field's value: from the brace after its name to the next closing brace. The
spelling of a scalar value has no other brace outside its texts. -/
def cut? (request : List Char) : Option (List Char) := do
  Text.through? '}' ('{' :: (← Text.after? "\"MyProperty\":\x7b".toList request))

/-- The answer to a request. -/
def answer (request : String) : String :=
  let cs := request.toList
  if Text.occurs askMyFoo cs then "\x7b\"ok\":" ++ myFoo ++ "\x7d"
  else if Text.occurs askMyProperty cs then
    match cut? cs with
    | some v => "\x7b\"ok\":" ++ String.ofList v ++ "\x7d"
    | none => "\x7b\"fault\":\"target has no MyProperty\"\x7d"
  else "\x7b\"mismatch\":\"unknown member\"\x7d"

/-- What the library exports. -/
def library (σ : Type) : Library.Exports σ := exports σ manifest answer

end LiveBuild.Samples.FooBar
