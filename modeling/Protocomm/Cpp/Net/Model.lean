import Protocomm.Cpp.Channel.Link
import Protocomm.Cpp.Server.Wire

/-!
# A C++ channel and its session

A C++ channel and a C++ server, joined by a connection that does not fail. The connection
is a byte stream in each direction: a read returns the bytes the other side has written,
from where the last read stopped. The server may have other sessions, of which nothing is
assumed.
-/

namespace Protocomm.Cpp.Net

open Misc

/-- `session` is the number of the session at the other end of the channel. -/
structure Config where
  channel : Channel.Config
  server : Server.Config
  session : Nat

/-- The pools of the channel and of the server. -/
structure State where
  client : Pool (Channel.Shared × Channel.Link) Channel.Thread
  server : Pool Server.Shared Server.Thread

variable (cfg : Config) (n : State)

/-- The connection of the channel. -/
def State.link : Channel.Link := n.client.shared.2

/-- The session of the channel. -/
def State.session : Server.Session := n.server.shared.session cfg.session

/-- `ReadFrame` returns `f` after the handshake and the frames `reads` of a stream. -/
def nextFrame (header stream : Bytes) (reads : List (FrameHeader × Bytes))
    (f : FrameHeader × Bytes) : Bool :=
  delivers (readFrame "" (unread (stream.drop header.length) reads)) (.ok f : Except String _)

/-- A read of the channel that succeeds returns what the session has written. -/
def State.clientReads : Channel.Thread → Channel.Action → Bool
  | .connectCoro .readHandshake, .readHandshake (.ok received) =>
      received.isPrefixOf (n.session cfg).out.received
  | .readLoop .reading, .readFrame (.frame hdr payload) =>
      nextFrame cfg.channel.handshakeHeader (n.session cfg).out.received n.link.got (hdr, payload)
  | _, _ => true

/-- A read of the session that succeeds returns what the channel has written. -/
def State.serverReads : Server.Thread → Server.Action → Bool
  | .wrapped j .readHandshake, .readHandshake (.ok received) =>
      j != cfg.session || received.isPrefixOf n.link.wrote
  | .wrapped j .read, .readFrame (.ok f) =>
      j != cfg.session ||
        nextFrame cfg.server.handshakeHeader n.link.wrote (n.session cfg).reads f
  | _, _ => true

/-- A step of thread `i` of the channel or of the server. -/
inductive Action where
  | client (i : Nat) (a : Channel.Action)
  | server (i : Nat) (a : Server.Action)

def step : Action → Option State
  | .client i a =>
      match n.client.threads[i]?,
        (Channel.calmProgram cfg.channel).machine.step n.client (i, a) with
      | some t, some client =>
          if n.clientReads cfg t a then some { n with client := client } else none
      | _, _ => none
  | .server i a =>
      match n.server.threads[i]?,
        (Server.calmProgram cfg.server cfg.session).machine.step n.server (i, a) with
      | some t, some server =>
          if n.serverReads cfg t a then some { n with server := server } else none
      | _, _ => none

/-- The runs of a channel and its server in which their connection does not fail, the
    channel is not shut down and pushes to its session follow the handshake. -/
def machine : Machine State Action := ⟨step cfg⟩

/-- A new channel and a started server. -/
def initial : State := ⟨Channel.linkedInitial, Server.initial⟩

variable {cfg n}

/-- What a step can do. -/
inductive Move (cfg : Config) (n : State) : Action → State → Prop
  | client {i : Nat} {a : Channel.Action} {t : Channel.Thread}
      {client : Pool (Channel.Shared × Channel.Link) Channel.Thread}
      (ht : n.client.threads[i]? = some t) (hreads : n.clientReads cfg t a = true)
      (hstep : (Channel.calmProgram cfg.channel).machine.step n.client (i, a) = some client) :
      Move cfg n (.client i a) { n with client := client }
  | server {i : Nat} {a : Server.Action} {t : Server.Thread}
      {server : Pool Server.Shared Server.Thread}
      (ht : n.server.threads[i]? = some t) (hreads : n.serverReads cfg t a = true)
      (hstep : (Server.calmProgram cfg.server cfg.session).machine.step n.server (i, a) =
        some server) :
      Move cfg n (.server i a) { n with server := server }

theorem step_move {act : Action} {n' : State} (h : (machine cfg).step n act = some n') :
    Move cfg n act n' := by
  cases act with
  | client i a =>
      simp only [machine, step] at h
      split at h
      · split at h <;> cases h
        exact .client ‹_› ‹_› ‹_›
      · cases h
  | server i a =>
      simp only [machine, step] at h
      split at h
      · split at h <;> cases h
        exact .server ‹_› ‹_› ‹_›
      · cases h

end Protocomm.Cpp.Net
