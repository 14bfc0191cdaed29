import HostScript.Api.Form
import HostScript.Service
import HostScript.Text.Case

/-!
# The service over HTTP

Each path and method is a request to the service. Faults that callers can act on become answers
with a status of their own.
-/

namespace HostScript.Api

/-- An answer. -/
structure Response where
  status : Nat
  body : Json

/-- What a path and a method ask for. -/
inductive Endpoint where
  | root
  | health
  | compile
  | convert
  | execute
  | analyze
  | formats
  | profiles
  | stats
  | clearCache

/-- The version that the service reports. -/
def version : String := "0.1.0"

/-- The endpoints with their methods and paths. -/
def routes : List (String × String × Endpoint) := [
  ("POST", "/jit/compile", .compile), ("POST", "/jit/convert", .convert),
  ("POST", "/jit/execute", .execute), ("POST", "/jit/analyze", .analyze),
  ("GET", "/jit/formats", .formats), ("GET", "/jit/profiles", .profiles),
  ("GET", "/jit/stats", .stats), ("DELETE", "/jit/cache", .clearCache),
  ("GET", "/", .root), ("GET", "/health", .health)]

/-- A path without its segments that lead nowhere and those that lead back. -/
def dropDots (path : Text) : Text :=
  let segments := (path.splitOn '/').foldl (fun kept s =>
    if s == ['.'] then kept
    else if s == ['.', '.'] then (if kept == [[]] then kept else kept.dropLast)
    else kept ++ [s]) []
  Text.join "/" segments

/-- A path with its escapes in hexadecimal digits as the characters that they stand for; the first
`skip` characters belong to an escape. -/
def unescape : (skip : Nat) → Text → Text
  | _, [] => []
  | skip + 1, _ :: rest => unescape skip rest
  | 0, c :: rest =>
    let digits := rest.take 2
    if c == '%' && digits.length == 2 && digits.all isHexDigit then
      Char.ofNat (basedValue 16 digits) :: unescape 2 rest
    else c :: unescape 0 rest

/-- The path of a request without what is not part of it, such as the name of a host behind two
slashes. A slash at the end is dropped where that leads to an endpoint. -/
def pathOf (target : Text) : Text :=
  let path := target.takeWhile fun c => c != '?' && c != '#'
  let path := match path with
    | '/' :: '/' :: rest => rest.dropWhile (· != '/')
    | _ => path
  let path := unescape 0 (dropDots ('/' :: path.dropWhile (· == '/')))
  let known (p : Text) : Bool := routes.any fun (_, q, _) => q.toList == p
  let bare := Text.trimEndOf (· == '/') path
  if !known path && known bare then bare else path

/-- The endpoint of a method and a path, or the answer that there is none. -/
def route (method target : Text) : Except Response Endpoint :=
  let path := pathOf target
  match routes.filter fun (_, p, _) => p.toList == path with
  | [] => .error ⟨404, .ofPairs [("detail", "Not Found")]⟩
  | found =>
    match found.find? fun (m, _, _) => m.toList == upper method with
    | some (_, _, e) => .ok e
    | none => .error ⟨405, .ofPairs [("detail", "Method Not Allowed")]⟩

/-- The rules for the body of a request. -/
def rulesOf : Endpoint → List FieldRule
  | .compile => [.text "source" true, .text "dialect" true, .level "optimization_level",
      .text "target_profile" false, .flag "enable_polyfills", .flag "optimize_for_size",
      .flag "preserve_semantics"]
  | .convert => [.text "instructions" true, .text "source_format" true,
      .text "target_profile" false, .level "optimization_level", .flag "adapt"]
  | .execute => [.text "code" true, .positive "timeout", .positiveInt "memory_limit_mb"]
  | .analyze => [.text "code" true, .text "target_profile" false]
  | _ => []

/-- The request to compile that a body makes. -/
def compileRequest (b : Json) : Service.CompileRequest where
  source := fieldOr textField? b "source" []
  dialect := fieldOr textField? b "dialect" []
  level := fieldOr intField? b "optimization_level" 2
  profile := fieldOr textField? b "target_profile" []
  polyfills := fieldOr boolField? b "enable_polyfills" true
  forSize := fieldOr boolField? b "optimize_for_size" false
  preserveSemantics := fieldOr boolField? b "preserve_semantics" true

/-- The request to convert that a body makes. -/
def convertRequest (b : Json) : Service.ConvertRequest where
  instructions := fieldOr textField? b "instructions" []
  format := fieldOr textField? b "source_format" []
  profile := fieldOr textField? b "target_profile" []
  level := fieldOr intField? b "optimization_level" 0
  adapt := fieldOr boolField? b "adapt" false

/-- The request to run a script that a body makes. -/
def executeRequest (b : Json) : Service.ExecuteRequest where
  code := fieldOr textField? b "code" []
  input := (b.get? "input").getD .null
  timeout := ((b.get? "timeout").bind floatField?).map .float

/-- What the root of the service tells about it. -/
def rootJson : Json :=
  .ofPairs [("name", "jitphone API"), ("version", version),
    ("description", "Source dialects and engine instructions to adapted JavaScript"),
    ("docs", "/docs"), ("openapi", "/openapi.json")]

/-- The answer to a fault; none if callers cannot act on it. -/
def faultResponse? (f : Fault) : Option Response :=
  let named (status : Nat) : Option Response :=
    some ⟨status, .ofPairs [("kind", .str (f.kind?.getD "").toList), ("message", .str f.message)]⟩
  match f with
  | .unsupportedFormat .. => named 400
  | .unknownProfile .. => named 404
  | .sizeLimit .. => named 413
  | .invalidScript line => some ⟨422, .ofPairs [("kind", "syntax"), ("line", .int line)]⟩
  | .execution _ | .timeout _ => named 500
  | .badValue m => some ⟨422, .ofPairs [("kind", "invalid_request"), ("message", .str m)]⟩
  | _ => none

/-- Runs the request of an endpoint with a valid body. -/
def serve {m : Type → Type} [Monad m] (engine : Sandbox.Run → m Sandbox.EngineAnswer)
    (s : Service) (body : Json) : Endpoint → m (Outcome Json × Service)
  | .root => pure (.ok rootJson, s)
  | .health => pure (.ok (.ofPairs [("status", "healthy")]), s)
  | .compile =>
    let (r, s) := (Service.compile (compileRequest body)).run s
    pure (r.map (·.toJson), s)
  | .convert =>
    let (r, s) := (Service.convert (convertRequest body)).run s
    pure (r.map (·.toJson), s)
  | .execute => do
    let r ← s.execute engine (executeRequest body)
    pure (r.map fun e => .ofPairs e.members, s)
  | .analyze =>
    let r := s.analyze (fieldOr textField? body "code" [])
      (fieldOr textField? body "target_profile" [])
    pure (r.map fun a => .ofPairs a.members, s)
  | .formats => pure (.ok Service.formatsJson, s)
  | .profiles => pure (.ok s.profilesJson, s)
  | .stats => pure (.ok s.statsJson, s)
  | .clearCache => pure (.ok (.ofPairs [("cleared", .bool true)]), s.clear)

/-- Places as a value. -/
def placesJson (places : List (List String)) : Json :=
  .arr (places.map fun p => .ofTexts (p.map String.toList))

/-- Answers a request. -/
def handle {m : Type → Type} [Monad m] (engine : Sandbox.Run → m Sandbox.EngineAnswer)
    (s : Service) (method target : Text) (body : Option Json) : m (Outcome Response × Service) :=
  match route method target with
  | .error answer => pure (.ok answer, s)
  | .ok endpoint =>
    let rules := rulesOf endpoint
    match if rules.isEmpty then [] else invalidPlaces rules body with
    | [] => do
      let (r, s) ← serve engine s (body.getD .null) endpoint
      match r with
      | .ok v => pure (.ok ⟨200, v⟩, s)
      | .error f =>
        match faultResponse? f with
        | some answer => pure (.ok answer, s)
        | none => pure (.error f, s)
    | places => pure (.ok ⟨422, .ofPairs [("invalid", placesJson places)]⟩, s)

end HostScript.Api
