import DatalogClient.Http.Transfer
import DatalogClient.Program.Run
import Std.Async.DNS
import Std.Async.TCP
import Std.Async.Timer

/-!
# The program

The command line is taken from the system, and the dialogue it means is held with the system:
files, streams and connections.
-/

namespace DatalogClient

open Std Std.Async

/-- All bytes of a connection until it ends. -/
partial def receive (connection : TCP.Socket.Client) (got : ByteArray) : Async ByteArray := do
  match ← connection.recv? 65536 with
  | some more => receive connection (got ++ more)
  | none => return got

/-- Do something within a time. -/
def within {α : Type} (ms : Nat) (action : Async α) : Async (Option α) :=
  Async.race (do return some (← action)) (do sleep (.ofNat ms); return none)

/-- The same address for a connection. -/
def endOf (service : UInt16) : Net.IPAddr → Net.SocketAddress
  | .v4 host => .v4 ⟨host, service⟩
  | .v6 host => .v6 ⟨host, service⟩

/-- Connect to the first host of some that takes the connection. -/
def connectAny (service : UInt16) : List Net.IPAddr → Async (Option TCP.Socket.Client)
  | [] => return none
  | host :: rest => do
    try
      let connection ← TCP.Socket.Client.mk
      connection.connect (endOf service host)
      return some connection
    catch _ => connectAny service rest

/-- Send a request and wait for what becomes of it. -/
def exchangeOver (request : Http.Request) : Async Http.Outcome := do
  match Http.Address.ofUrl? request.url with
  | none => return .refused
  | some address =>
    let hosts ← try DNS.getAddrInfo address.host (toString address.service) catch _ => pure #[]
    match ← within request.patience.connectMs (connectAny address.service hosts.toList) with
    | none => return .timedOut
    | some none => return .refused
    | some (some connection) =>
      let answer : Async Http.Outcome := do
        try
          connection.send request.transferred
          return .ofTransfer (← receive connection .empty).toList
        catch _ => return .closed
      return (← within request.patience.answerMs answer).getD .timedOut

/-- What there is to read under a name. -/
def sourceFor : SourceName → IO Source
  | .input => return .bytes (← (← IO.getStdin).readBinToEnd)
  | .file path => do
    try return .bytes (← IO.FS.readBinFile path)
    catch
      | .noFileOrDirectory .. => return .missing
      | .inappropriateType .. => return .unreadable Source.isDirectory
      | e => return .unreadable (toString e)

/-- Hold a dialogue with the system. -/
def Dialogue.hold {α : Type} : Dialogue α → IO α
  | done result => return result
  | write .output text next => do IO.print text; next.hold
  | write .errors text next => do IO.eprint text; next.hold
  | read name next => do (next (← sourceFor name)).hold
  | send request next => do (next (← (exchangeOver request).block)).hold

end DatalogClient

open DatalogClient in
/-- Do what the command line means. -/
def main (arguments : List String) : IO UInt32 := do
  let around : Surroundings :=
    { config := ← IO.getEnv "DQ_CONFIG", apiUrl := ← IO.getEnv "DQ_API_URL" }
  return (← (program around arguments).hold).code.toUInt32
