import LiveRelay.Config.Message

/-! # The command line of the relay

The program reads its settings and says where a transport has to listen for it. A request for help
or for the version is answered on standard output, and a fault of the arguments on standard error.
-/

namespace LiveRelay

/-- The variables of the environment that the settings look at. -/
def readEnvironment : IO Environment := do
  let host ← IO.getEnv Setting.host.environmentName
  let port ← IO.getEnv Setting.port.environmentName
  let staticDir ← IO.getEnv Setting.staticDir.environmentName
  return ⟨host, port, staticDir⟩

end LiveRelay

open LiveRelay in
/-- Reads the settings and reports them, or says why there are none. -/
def main (arguments : List String) : IO UInt32 := do
  let environment ← readEnvironment
  let program ← IO.appPath
  match Config.ofArguments environment arguments with
  | .ok config =>
    IO.println ("Listening on " ++ config.host ++ ":" ++ toString config.port ++ ", serving " ++
      config.staticDir)
    return 0
  | .error e =>
    let text := e.message (ArgumentError.callName program.toString) environment
    if e.exitCode = 0 then IO.print text else IO.eprintln text
    return UInt32.ofNat e.exitCode
