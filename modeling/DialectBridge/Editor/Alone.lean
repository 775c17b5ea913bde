import DialectBridge.Editor.Wire
import DialectBridge.Host.Exchange
import DialectBridge.Host.Frame

/-!
# A server without programs

Where no program can be started, the server still follows the protocol: it tells for each document
that its compiler cannot be run, and has no answers from the host language.

`Inbox` holds the bytes that came from the editor; `Inbox.work` takes all whole frames out of it.
-/

namespace DialectBridge.Editor

/-- A host language server that cannot be started. -/
def absentPeer : Host.Peer Unit where
  start _ := .error .notFound
  receive _ _ := ((), [])

/-- Surroundings in which no program can be started. -/
def alone : Surroundings (Host.Exchange Unit) where
  programs := .unavailable
  host := Host.Exchange.service absentPeer
  startHost settings := ⟨.idle settings.hostServer.program settings.hostTimeoutMs .null, ()⟩
  stopHost e := e.shutdown absentPeer

/-- A server with the bytes that have come and are not read yet. -/
structure Inbox (σ : Type) where
  server : Server σ
  bytes : List UInt8
  /-- No more bytes will come. -/
  closed : Bool

namespace Inbox

variable {σ : Type}

/-- Takes a value from the wire; gives the response to send, if there is one. -/
def accept (env : Surroundings σ) (i : Inbox σ) (value : Json) : Inbox σ × List Json :=
  let (server, _, response) := i.server.receive env value
  ({ i with server }, response.toList)

/-- Takes at most `fuel` frames out of the bytes; gives the responses to send. -/
def read (env : Surroundings σ) : Nat → Inbox σ → Inbox σ × List Json
  | 0, i => (i, [])
  | fuel + 1, i =>
    match Host.Frame.next i.closed i.bytes with
    | .ended => (i, [])
    | .incomplete => (i, [])
    | .failed _ rest =>
      let (i, later) := read env fuel { i with bytes := rest }
      (i, ((Response.error .parseError).toMessage? .null).toList ++ later)
    | .message value rest =>
      let (i, responses) := accept env { i with bytes := rest } value
      let (i, later) := read env fuel i
      (i, responses ++ later)

/-- Takes all whole frames and lets `ms` milliseconds pass; gives what is to be sent. -/
def work (env : Surroundings σ) (i : Inbox σ) (ms : Nat) : Inbox σ × List Json :=
  let (server, _) := i.server.pause env ms
  let (i, responses) := read env (i.bytes.length + 1) { i with server }
  let told := i.server.outbox.map withVersion
  ({ i with server := { i.server with outbox := [] } }, told ++ responses)

/-- Nothing is left to do. -/
def finished (i : Inbox σ) : Bool :=
  i.closed || i.server.lifecycle = .exited

end Inbox

end DialectBridge.Editor
