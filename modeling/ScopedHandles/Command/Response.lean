/-
**Responses to commands.**

A command prints one JSON document: what it found under `data`, or what kept it from running under
`error`. A line that is no command prints nothing.
-/

import ScopedHandles.Audit
import ScopedHandles.Run
import ScopedHandles.Command.Arguments

namespace ScopedHandles

/-- What a command leaves behind. -/
structure Response where
  exitCode : Nat
  output : Text
  tree : Listing

/-- A fault with hints on what to do about it. -/
structure Refusal where
  fault : Fault
  hints : List String := []

namespace Response

/-- The document for data. -/
def success (data : Json) : Json :=
  .object [("success".toList, .bool true), ("data".toList, data)]

/-- The document for a fault. -/
def failure (refusal : Refusal) : Json :=
  let { fault, hints } := refusal
  let hints := hints.map fun hint => Json.ofFields [("message", .ofString hint)]
  .object [("success".toList, .bool false), ("error".toList, .object (
    [("code".toList, .ofString fault.code), ("message".toList, .ofString fault.message),
     ("details".toList, fault.details)]
    ++ if hints.isEmpty then [] else [("hints".toList, .array hints)]))]

/-- A document as output. -/
def print (document : Json) : Text :=
  document.render ++ ['\n']

end Response

namespace Request

/-- The settings of a request: the defaults, then a settings file, then what the line says. -/
def settings (request : Request) (tree : Listing) : Except Fault Settings := do
  let settings ←
    match request.config with
    | none => pure {}
    | some path => loadSettings tree path
  let settings :=
    match request.extension with
    | none => settings
    | some extension => { settings with extension := String.ofList extension }
  settings.validate
  return { settings with
    dryRun := settings.dryRun || request.dryRun
    verbose := settings.verbose || request.verbose
    threads := request.threads.getD settings.threads }

/-- The settings of a request whose path is a directory. -/
def prepare (request : Request) (tree : Listing) : Except Refusal Settings :=
  if (tree.directory? request.path).isNone then
    .error { fault := .notADirectory request.path, hints := ["Pass the root of a source tree"] }
  else (request.settings tree).mapError fun fault => { fault }

/-- Encloses the handles below the path of a request. -/
def enclose (request : Request) (tree : Listing) (disk : Disk) :
    Except Refusal (RunReport × Listing) := do
  let settings ← request.prepare tree
  (runTree settings tree request.path disk).mapError fun fault => { fault }

/-- Audits the files below the path of a request. -/
def audit (request : Request) (tree : Listing) : Except Refusal AuditReport := do
  let settings ← request.prepare tree
  (ScopedHandles.audit settings tree request.path).mapError fun fault => { fault }

end Request

/-- What a command does to a tree. -/
def Command.run (command : Command) (tree : Listing) (disk : Disk) : Response :=
  let refuse (refusal : Refusal) : Response :=
    { exitCode := refusal.fault.exitCode, output := Response.print (Response.failure refusal), tree }
  match command with
  | .version => { exitCode := 0, output := "closer 0.4.2\n".toList, tree }
  | .enclose request =>
    match request.enclose tree disk with
    | .error refusal => refuse refusal
    | .ok (report, tree) =>
      { exitCode := report.exitCode, output := Response.print (Response.success report.toJson), tree }
  | .audit request =>
    match request.audit tree with
    | .error refusal => refuse refusal
    | .ok report =>
      { exitCode := report.exitCode, output := Response.print (Response.success report.toJson), tree }

/-- What a command line does to a tree. -/
def respond (line : List Text) (tree : Listing) (disk : Disk := .willing) : Response :=
  match Command.read? line with
  | none => { exitCode := 2, output := [], tree }
  | some command => command.run tree disk

end ScopedHandles
