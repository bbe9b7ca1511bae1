import Calynda.Ast

/-!
# Diagnostics

The four error records of the passes (`SymbolTableError`, `TypeResolutionError`,
`TypeCheckError`, `HirBuildError`) have the same fields. Each pass keeps its first error
and fails from there on, so a pass is a state monad over `Except`.
-/

namespace Calynda

structure Diagnostic where
  primarySpan : AstSourceSpan
  relatedSpan : Option AstSourceSpan
  message : String
  deriving DecidableEq, Repr

/-- The text that a formatted write leaves in a buffer of `size` bytes. -/
def formatIntoBuffer (size : Nat) (text : String) : String :=
  String.ofList (text.toList.take (size - 1))

namespace Diagnostic

/-- `set_error` of a pass: a message without a place. -/
def plain (message : String) : Diagnostic :=
  { primarySpan := .zero, relatedSpan := none, message := formatIntoBuffer 256 message }

/-- `set_error_at` of a pass: the related span is kept only when it is valid. -/
def «at» (primarySpan : AstSourceSpan) (relatedSpan : Option AstSourceSpan)
    (message : String) : Diagnostic :=
  { primarySpan
    relatedSpan := relatedSpan.filter AstSourceSpan.isValid
    message := formatIntoBuffer 256 message }

end Diagnostic

end Calynda
