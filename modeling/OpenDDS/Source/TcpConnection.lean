import OpenDDS.Source.ReceiveStrategy
import OpenDDS.Source.SendStrategy

/-!
# Connections that are established again

`TcpConnection::active_reconnect_i` (dds/DCPS/transport/tcp/TcpConnection.cpp) with the send
strategy of the connection, and `TcpReceiveStrategy::reset` (TcpReceiveStrategy.cpp) on the
other side. The reconnection is done by a task of its own, so that other threads use the
strategy between `suspend_send` and `resume_send`; `relink` only suspends the strategy, if it
is told to, and queues the task. TCP strategies do not limit packets, `max_message_size` is 0.
-/
namespace OpenDDS.Source.TcpConnection

open Library SendStrategy

inductive ReconnectState where
  | init
  | lost
  | reconnected
  | passiveWaiting
  | passiveTimeoutCalled
  deriving DecidableEq

/-- A connection; `reconnecting` says that `active_reconnect_i` holds `reconnect_lock_`. -/
structure Connection (ε : Type) where
  reconnectState : ReconnectState
  reconnecting : Bool
  sendStrategy : Strategy ε

variable {ε : Type}

/-- `active_reconnect_i` until it tries to connect; `delayed` says that `reconnect_delay` is over
since it did so before. -/
def Connection.startReconnect (delayed : Bool) (c : Connection ε) : Connection ε :=
  let reconnectState :=
    if delayed ∧ c.reconnectState = .reconnected then .init else c.reconnectState
  if reconnectState = .init then
    { c with reconnectState, reconnecting := true, sendStrategy := c.sendStrategy.suspendSend }
  else { c with reconnectState }

variable [QueueElement ε]

/-- The rest of `active_reconnect_i`, when the connection was established or no attempt is left. -/
def Connection.finishReconnect (cfg : Config) (established : Bool) (c : Connection ε) :
    Except Fault (Connection ε) :=
  if established then
    .ok { c with
      reconnectState := .reconnected
      reconnecting := false
      sendStrategy := c.sendStrategy.resumeSend }
  else
    (c.sendStrategy.terminateSend cfg false).map fun sendStrategy =>
      { c with reconnectState := .lost, reconnecting := false, sendStrategy }

/-- What happens to a connection: another thread calls the strategy, or the task goes on. -/
inductive Event (ε : Type) where
  | call (call : Call ε)
  | startReconnect (delayed : Bool)
  | finishReconnect (established : Bool)

def calls : Call ε → Bool
  | .sendStart => true
  | .send _ _ attempts | .sendStop _ attempts => attempts.all fun a => a.relink = .suspended
  | .performWork attempt => attempt.relink = .suspended
  | .suspendSend | .resumeSend | .terminateSend _ => false

def Connection.step (cfg : Config) (c : Connection ε) : Event ε → Option (Connection ε)
  | .call call =>
    if calls call then
      (c.sendStrategy.perform cfg call).toOption.map fun sendStrategy => { c with sendStrategy }
    else none
  | .startReconnect delayed => if c.reconnecting then none else some (c.startReconnect delayed)
  | .finishReconnect established =>
    if c.reconnecting then (c.finishReconnect cfg established).toOption else none

def create (host : ByteOrder) : Connection ε := ⟨.init, false, SendStrategy.create host⟩

structure TcpReceiveStrategy where
  strategy : ReceiveStrategy.Strategy
  connection : Option Nat

/-- `reset`, if the new connection can be registered with the reactor. -/
def TcpReceiveStrategy.reset (connection : Nat) (r : TcpReceiveStrategy) :
    Option TcpReceiveStrategy :=
  match r.connection with
  | none => none
  | some old => if old = connection then none else some { r with connection := some connection }

end OpenDDS.Source.TcpConnection
