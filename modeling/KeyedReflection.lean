import KeyedReflection.Host.Workspace
import KeyedReflection.Interpreter
import KeyedReflection.Main
import KeyedReflection.Proofs.Field.Naming
import KeyedReflection.Proofs.Dispatch
import KeyedReflection.Proofs.Interpreter.Operations
import KeyedReflection.Proofs.Interpreter.Cells
import KeyedReflection.Proofs.Json.Equality
import KeyedReflection.Proofs.Interpreter.Patch
import KeyedReflection.Proofs.Field.Layout
import KeyedReflection.Proofs.Field.Growing
import KeyedReflection.Proofs.Field.Paths
import KeyedReflection.Proofs.Schema.Loading
import KeyedReflection.Proofs.Schema.RoundTrip
import KeyedReflection.Proofs.Declaration.Documentation
import KeyedReflection.Proofs.Declaration.Enclosed
import KeyedReflection.Proofs.Declaration.Extraction
import KeyedReflection.Proofs.Declaration.Elision
import KeyedReflection.Proofs.Declaration.Nesting
import KeyedReflection.Proofs.Declaration.Scopes
import KeyedReflection.Proofs.Schema.Building
import KeyedReflection.Proofs.Schema.Exporting
import KeyedReflection.Proofs.Declaration.Shadowing
import KeyedReflection.Proofs.Key.Unambiguous
import KeyedReflection.Proofs.Interpreter.Independent
import KeyedReflection.Proofs.Module.Reordering
import KeyedReflection.Proofs.Module.Constants
import KeyedReflection.Proofs.Cpp.Switches
import KeyedReflection.Proofs.Cpp.Names
import KeyedReflection.Proofs.Cpp.Comments
import KeyedReflection.Proofs.Command.Reading
import KeyedReflection.Proofs.Command.Failing
import KeyedReflection.Proofs.Command.Runs
import KeyedReflection.Proofs.Command.Checking
import KeyedReflection.Proofs.Field.Additions
import KeyedReflection.Proofs.Declaration.Unnamed
import KeyedReflection.Proofs.Cpp.KeyIndex
import KeyedReflection.Proofs.Dispatch.Merging
import KeyedReflection.Proofs.Interpreter.Conversions
import KeyedReflection.Proofs.Schema.Keys
import KeyedReflection.Proofs.Declaration.Qualifiers
import KeyedReflection.Proofs.Diagnostic.Reporting
import KeyedReflection.Proofs.Diagnostic.Unlocated
import KeyedReflection.Proofs.Cpp.Literals
import KeyedReflection.Proofs.Declaration.Optionals
import KeyedReflection.Proofs.Conversion
import KeyedReflection.Proofs.Declaration.Dedenting
import KeyedReflection.Proofs.Field.Traversals
