import NocoMiddleware.Js.Text

/-!
# Exceptions

The exceptions that the modelled services throw or pass on, each with its
message.
-/

namespace NocoMiddleware

open Js

/-- An exception of the middleware.  `typeError` is one that the language itself
raises, `upstream` a NocoDB request that failed; its details come from outside. -/
inductive Exception where
  | badRequest (message : JsString)
  | unauthorized (message : JsString)
  | forbidden (message : JsString)
  | notFound (message : JsString)
  | conflict (message : JsString)
  | intrinsic (message : JsString)
  | nocoDB (message : JsString)
  | typeError
  | upstream
  deriving DecidableEq

namespace Exception

/-- `error instanceof ConflictException`. -/
def isConflict : Exception → Bool
  | conflict _ => true
  | _ => false

end Exception

end NocoMiddleware
