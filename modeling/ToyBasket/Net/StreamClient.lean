import ToyBasket.Net.Connector

/-!
# A client and its loop

`StreamClient.cpp` over its connector: calls from any thread, retry timers on a thread of their own,
and a loop that polls, handles what was reported and then runs the functors queued by then.
-/

namespace ToyBasket

open Outcome (check Holds)

/-- The callbacks of the channels of a client. -/
inductive ClientCallback where
  | handleError
  | handleWrite
  | connection (fd : Nat)
deriving DecidableEq, Repr

/-- A channel that `poll` reports: that of the connector, with an error or room to write, or that of
a connection. -/
inductive ClientActive where
  | connector (error write : Bool)
  | connection (fd : Nat)
deriving DecidableEq, Repr

def ClientActive.callbacks : ClientActive → List ClientCallback
  | connector error write =>
      (if error then [.handleError] else []) ++ (if write then [.handleWrite] else [])
  | connection fd => [.connection fd]

/-- Where the loop is. -/
inductive ClientPosition where
  | poll
  | dispatch (callbacks : List ClientCallback)
  | functors
deriving DecidableEq, Repr

/-- What a callback of a connection comes to: it closes, it updates its channel, or neither. -/
inductive ConnectionOutcome where
  | closes
  | updates
  | neither
deriving DecidableEq, Repr

/-- `live` are the connections that have not closed. -/
structure StreamClient where
  connector : Connector
  connect : Bool
  retry : Bool
  connection : Option Nat
  live : List Nat
  position : ClientPosition
deriving DecidableEq, Repr

/-- A call on the client, on its connector or on a connection, a timer that fires, or a step of the
loop. Where it comes to `connect`, that leaves `errno`. -/
inductive ClientEvent where
  | connect (thread : Nat) (errno : ConnectErrno)
  | stop
  | disconnect
  | enableRetry
  | connectorStart (thread : Nat) (errno : ConnectErrno)
  | connectorStop
  | connectorRestart (errno : ConnectErrno)
  | forceClose (fd : Nat)
  | timer (index : Nat) (errno : ConnectErrno)
  | poll (active : List ClientActive)
  | callback (completion : Completion) (outcome : ConnectionOutcome) (errno : ConnectErrno)
  | swap
  | functor (errno : ConnectErrno)
deriving DecidableEq, Repr

namespace StreamClient

/-- The thread of the loop. -/
def loopThread : Nat := 0

/-- The thread that `TimerManager::syncWorkStart` runs on. -/
def timerThread : Nat := 1

def init (retry : Bool) : StreamClient where
  connector := Connector.init
  connect := true
  retry := retry
  connection := none
  live := []
  position := .poll

/-- `newConnection`, as far as `connectEstablished` registers the channel. -/
def newConnection (client : StreamClient) (sockfd : Nat) : StreamClient :=
  { client with
    connection := some sockfd
    live := client.live ++ [sockfd]
    connector := client.connector.poller loopThread .updateChannel sockfd }

def removeConnection (client : StreamClient) (fd : Nat) (errno : ConnectErrno) : StreamClient :=
  let connector := client.connector.assert .removeConnection (client.connection = some fd)
  let connector := connector.queueInLoop (.connectDestroyed fd)
  { client with
    connection := none
    connector :=
      if client.retry ∧ client.connect then connector.restart loopThread errno else connector }

/-- `StreamConnection::handleClose`: `disableAll`, and the callback of the client. -/
def handleClose (client : StreamClient) (fd : Nat) (errno : ConnectErrno) : StreamClient :=
  { client with
    live := client.live.filter fun other => other ≠ fd
    connector := client.connector.poller loopThread .updateChannel fd }.removeConnection fd errno

/-- `poll` reports the channel of the connector once, while it is registered, and connections that
have not closed. -/
def Reports (client : StreamClient) (active : List ClientActive) : Prop :=
  (active.countP fun a => a matches .connector _ _) ≤ 1 ∧
    ∀ a ∈ active, match a with
      | .connector _ _ => client.connector.channel.any ConnectorChannel.registered
      | .connection fd => fd ∈ client.live

instance (client : StreamClient) (active : List ClientActive) :
    Decidable (client.Reports active) :=
  have : ∀ a, Decidable (match a with
      | ClientActive.connector _ _ => client.connector.channel.any ConnectorChannel.registered
      | .connection fd => fd ∈ client.live) := fun a =>
    match a with
    | .connector _ _ => inferInstanceAs (Decidable (_ = true))
    | .connection fd => inferInstanceAs (Decidable (fd ∈ client.live))
  inferInstanceAs (Decidable (_ ∧ _))

def runCallback (client : StreamClient) (completion : Completion) (outcome : ConnectionOutcome)
    (errno : ConnectErrno) : ClientCallback → Except ConnectorFault StreamClient
  | .handleError => do
      let connector ← client.connector.handleError loopThread
      return { client with connector := connector }
  | .handleWrite => do
      let (connector, sockfd) ← client.connector.handleWrite loopThread completion
      let client := { client with connector := connector }
      match sockfd with
      | some sockfd => return client.newConnection sockfd
      | none => return client
  | .connection fd =>
      if fd ∈ client.live then
        match outcome with
        | .closes => .ok (client.handleClose fd errno)
        | .updates =>
            .ok { client with connector := client.connector.poller loopThread .updateChannel fd }
        | .neither => .ok client
      else .ok client

def runFunctor (client : StreamClient) (errno : ConnectErrno) :
    ClientFunctor → Except ConnectorFault StreamClient
  | .startInLoop =>
      .ok { client with connector := client.connector.startInLoop loopThread errno }
  | .stopInLoop => do
      let connector ← client.connector.stopInLoop loopThread
      return { client with connector := connector }
  | .resetChannel => .ok { client with connector := client.connector.resetChannel }
  | .forceCloseInLoop fd =>
      .ok (if fd ∈ client.live then client.handleClose fd errno else client)
  | .connectDestroyed fd =>
      .ok { client with connector := client.connector.poller loopThread .removeChannel fd }

/-- An event that is not possible where the loop is changes nothing. -/
def step (client : StreamClient) : ClientEvent → Except ConnectorFault StreamClient
  | .connect thread errno =>
      .ok { client with connect := true, connector := client.connector.start thread errno }
  | .stop => .ok { client with connect := false, connector := client.connector.stop }
  | .disconnect => .ok { client with connect := false }
  | .enableRetry => .ok { client with retry := true }
  | .connectorStart thread errno =>
      .ok { client with connector := client.connector.start thread errno }
  | .connectorStop => .ok { client with connector := client.connector.stop }
  | .connectorRestart errno =>
      .ok { client with connector := client.connector.restart loopThread errno }
  | .forceClose fd =>
      .ok (if fd ∈ client.live then
          { client with connector := client.connector.queueInLoop (.forceCloseInLoop fd) }
        else client)
  | .timer index errno =>
      .ok (if index < client.connector.timers.length then
          { client with connector :=
            { client.connector with
              timers := client.connector.timers.eraseIdx index }.startInLoop timerThread errno }
        else client)
  | .poll active =>
      .ok (if client.position = .poll ∧ client.Reports active then
          { client with position := .dispatch (active.flatMap ClientActive.callbacks) }
        else client)
  | .callback completion outcome errno =>
      match client.position with
      | .dispatch (cb :: callbacks) =>
          { client with position := .dispatch callbacks }.runCallback completion outcome errno cb
      | .dispatch [] | .poll | .functors => .ok client
  | .swap =>
      .ok (if client.position = .dispatch [] then
          { client with
            position := .functors
            connector := { client.connector with queue := client.connector.queue.swapFunctors } }
        else client)
  | .functor errno =>
      if client.position = .functors then
        match client.connector.queue.functors with
        | [] => .ok { client with position := .poll }
        | f :: functors =>
            { client with connector :=
              { client.connector with
                queue := { client.connector.queue with functors := functors }
                ran := client.connector.ran + 1 } }.runFunctor errno f
      else .ok client

end StreamClient

end ToyBasket
