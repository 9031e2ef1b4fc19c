import LiveBuild.Artifact.Stub
import LiveBuild.Samples.FooBar
import LiveBuild.Samples.Greeting
import LiveBuild.Walkthrough
import LiveBuild.Proofs.Locks.Interleaving
import LiveBuild.Proofs.Artifact.Resolution
import LiveBuild.Proofs.Decimal.Numeral
import LiveBuild.Proofs.Json.Tokens
import LiveBuild.Proofs.Json.RoundTrip
import LiveBuild.Proofs.Decimal.Finite
import LiveBuild.Proofs.Value.Tree
import LiveBuild.Proofs.Value.RoundTrip
import LiveBuild.Proofs.Decimal.Magnitude
import LiveBuild.Proofs.Decimal.Distinct
import LiveBuild.Proofs.Value.Distinct
import LiveBuild.Proofs.Artifact.Dispatch
import LiveBuild.Proofs.Locks.Progress
import LiveBuild.Proofs.Build.Outcome
import LiveBuild.Proofs.Build.Isolation
import LiveBuild.Proofs.Compiler.Outcome
import LiveBuild.Proofs.Locks.Simulation
import LiveBuild.Proofs.Locks.Punctuality
import LiveBuild.Proofs.Locks.Timetable
import LiveBuild.Proofs.Locks.Cleanup
import LiveBuild.Proofs.Json.Control
import LiveBuild.Proofs.Artifact.Exchange
import LiveBuild.Proofs.Artifact.Stub
import LiveBuild.Proofs.Files.Changes
import LiveBuild.Proofs.Compiler.Steps
import LiveBuild.Proofs.Compiler.Concurrent
import LiveBuild.Proofs.Compiler.Loaded
import LiveBuild.Proofs.Locks.Abandoned
import LiveBuild.Proofs.Locks.Entries
import LiveBuild.Proofs.Build.Steps
import LiveBuild.Proofs.Text.Utf8
import LiveBuild.Proofs.Member.RoundTrip
import LiveBuild.Proofs.Manifest.RoundTrip
import LiveBuild.Proofs.Json.Slots
import LiveBuild.Proofs.Wire.Roles
import LiveBuild.Proofs.Wire.Agreement
import LiveBuild.Proofs.Wire.Records
import LiveBuild.Proofs.Wire.Rearranged
import LiveBuild.Proofs.Artifact.Arrangement
import LiveBuild.Proofs.Text.Lines
import LiveBuild.Proofs.Compiler.Messages
import LiveBuild.Proofs.Compiler.Diagnostics
import LiveBuild.Proofs.Compiler.Resources
import LiveBuild.Proofs.Locks.Keys
import LiveBuild.Proofs.Compiler.Arguments
import LiveBuild.Proofs.Text.Search
import LiveBuild.Proofs.Json.Lexemes
import LiveBuild.Proofs.Value.Lexemes
import LiveBuild.Proofs.Value.FirstField
import LiveBuild.Proofs.Samples.Members
import LiveBuild.Proofs.Samples.Property
import LiveBuild.Proofs.Decimal.Word
import LiveBuild.Proofs.Build.Settings
import LiveBuild.Proofs.Files.FileName
import LiveBuild.Proofs.Compiler.CrateName
