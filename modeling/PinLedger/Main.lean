import PinLedger.Api.Body
import PinLedger.Startup

/-!
# PinLedger.Main

The server as a program. It starts with the variables of its environment and the files that they
name, prints its log, and then takes requests from standard input, one `METHOD path` a line; the
answer to each is a line with the status and the body.
-/

namespace PinLedger

def variableNames : List String :=
  ["PINNING_CONFIG", "DATABASE_URL", "PINNING_FEED_URL", "REPOSITORY_TYPE", "HOST",
    "PINNING_MINUTES", "PORT"]

def readVariables : IO (Dict String String) :=
  variableNames.foldlM (fun vars name => do
    match ← IO.getEnv name with
    | some value => pure (vars.insert name value)
    | none => pure vars) ∅

def readFileInto (files : Dict String String) (path : String) : IO (Dict String String) := do
  match ← (IO.FS.readFile path).toBaseIO with
  | .ok text => pure (files.insert path text)
  | .error _ => pure files

/-- The variables and the files that a server asks for: its configuration, and the mapping that the
configuration names. -/
def readSurroundings : IO Surroundings := do
  let vars ← readVariables
  let paths := (vars.find? "PINNING_CONFIG").toList ++ Config.defaultPaths
  let files ← paths.foldlM readFileInto ∅
  match ((Config.load ⟨vars.find?, files⟩).run.run []).1 with
  | .ok c => do pure ⟨vars.find?, ← readFileInto files c.pinning.mappingFile⟩
  | .error _ => pure ⟨vars.find?, files⟩

def taskName : TaskId → String
  | .issued n => s!"task-{n}"
  | .foreign text => text

def LogLine.render : LogLine → String
  | .notice n => s!"INFO {n.message}"
  | .warning w => s!"WARN {w.message taskName}"

/-- An endpoint in which an issued task is known by its name. -/
def Endpoint.known (issued : Nat) : Endpoint → Endpoint
  | .task (.foreign text) =>
    .task ((((List.range issued).map (.issued <| · + 1)).find? (taskName · = text)).getD
      (.foreign text))
  | p => p

/-- The reply to a line, and the engine with all work done that came of it. -/
def Engine.serveLine (e : Engine) (line : String) : Reply × Engine :=
  match line.splitOn " " with
  | [method, path] =>
    let p := (Endpoint.ofPath path).map (Endpoint.known e.service.tracker.issued)
    let (r, e) := e.serve taskName (.ofName method) p
    (r, e.settle)
  | _ => (⟨400, .nothing⟩, e)

def Reply.render (r : Reply) : String :=
  match r.content with
  | .nothing => toString r.status
  | c => s!"{r.status} {(c.json taskName).render}"

/-- Takes requests until the input ends. -/
partial def serveInput (input output : IO.FS.Stream) (s : Server) (began seconds : Nat) :
    IO Unit := do
  let line ← input.getLine
  if line.isEmpty then pure ()
  else
    let now := ((← IO.monoMsNow) - began) / 1000
    let e := s.engine.advance s.schedule seconds now
    let (r, e) := e.serveLine line.trimAscii.toString
    e.log.forM fun w => output.putStrLn (LogLine.warning w).render
    output.putStrLn r.render
    output.flush
    serveInput input output { s with engine := { e with log := [] } } began now

end PinLedger

open PinLedger in
def main : IO UInt32 := do
  let (r, log) := (startUp (← readSurroundings)).run.run []
  let output ← IO.getStdout
  log.forM fun l => output.putStrLn l.render
  match r with
  | .error e =>
    IO.eprintln s!"Error: {e.message}"
    pure 1
  | .ok s =>
    serveInput (← IO.getStdin) output s (← IO.monoMsNow) 0
    pure 0
