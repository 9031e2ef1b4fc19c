import LiveBuild.Compiler.Diagnostics
import LiveBuild.Text.Utf8

/-!
# Runs of the compiler

A run that ended has an exit status and an error output. It is judged by both: an error that points
into the source decides whatever the status is; otherwise a status other than success is a failure
of the toolchain, and success lets the output be loaded.

`Finished.judge` is the judgement of a run.
-/

namespace LiveBuild.Compiler

/-- How a process ended. -/
inductive ExitStatus
  | code (n : Nat)
  /-- A signal ended the process, perhaps with a core dump. -/
  | signal (number : Nat) (dumped : Bool)
  deriving DecidableEq, Repr

/-- The names of the signals, in the order of their numbers, which begin with one. -/
def signalNames : List String :=
  ["SIGHUP", "SIGINT", "SIGQUIT", "SIGILL", "SIGTRAP", "SIGABRT", "SIGBUS", "SIGFPE", "SIGKILL",
    "SIGUSR1", "SIGSEGV", "SIGUSR2", "SIGPIPE", "SIGALRM", "SIGTERM", "SIGSTKFLT", "SIGCHLD",
    "SIGCONT", "SIGSTOP", "SIGTSTP", "SIGTTIN", "SIGTTOU", "SIGURG", "SIGXCPU", "SIGXFSZ",
    "SIGVTALRM", "SIGPROF", "SIGWINCH", "SIGIO", "SIGPWR", "SIGSYS"]

/-- The name of a signal in parentheses, if it has one. -/
def signalName : Nat → String
  | 0 => ""
  | n + 1 => signalNames[n]?.elim "" fun name => " (" ++ name ++ ")"

/-- A status as it is shown. -/
def ExitStatus.display : ExitStatus → String
  | code n => "exit status: " ++ toString n
  | signal number dumped =>
    "signal: " ++ toString number ++ signalName number ++ if dumped then " (core dumped)" else ""

/-- The process succeeded. -/
def ExitStatus.isSuccess (s : ExitStatus) : Bool := s == .code 0

/-- A run that ended. -/
structure Finished where
  status : ExitStatus
  stderr : List UInt8
  deriving DecidableEq, Repr

/-- What a run means. -/
inductive Judgement
  /-- Some error points into the source; there is no output. -/
  | sourceErrors (entries : List Entry)
  /-- The compiler failed otherwise. -/
  | failure (msg : String)
  /-- The output can be loaded. -/
  | success (entries : List Entry)
  deriving DecidableEq, Repr

namespace Finished

/-- The error output as text. -/
def text (f : Finished) : String := Utf8.decodeLossy f.stderr

/-- The entries in the error output. -/
def entries (f : Finished) : List Entry := Diagnostics.parse f.text

/-- The messages of the errors, in one line. -/
def errorSummary (f : Finished) : String :=
  "; ".intercalate ((f.entries.filter (·.isError)).map (·.message))

/-- What is said of a run that failed without an error in the source. -/
def failureMessage (f : Finished) : String :=
  if f.errorSummary = "" then
    "rustc exited with " ++ f.status.display ++ ": " ++
      String.ofList (Text.trim f.text.toList)
  else f.errorSummary

/-- The judgement of a run. -/
def judge (f : Finished) : Judgement :=
  if Diagnostics.hasLocatedError f.entries then .sourceErrors f.entries
  else if f.status.isSuccess then .success f.entries
  else .failure f.failureMessage

end Finished

end LiveBuild.Compiler
