import Protocomm.Go.Channel.Lines
import Protocomm.Go.Server.Model

/-!
# Channels and a server

Any number of Go channels and one Go server, joined by connections. A connection is a
byte stream in each direction: a read that succeeds returns the bytes the other side
has written, from where the last read stopped. Any read or write may fail at any time,
so a connection may be cut at every byte.
-/

namespace Protocomm.Go.Net

open Misc

/-- The configurations of the channels and of the server. -/
structure Config where
  channels : Nat → Channel.Config
  server : Server.Config

/-- The configuration channel `i` works with. -/
def Config.client (cfg : Config) (i : Nat) : Channel.Config :=
  Channel.createConfig (cfg.channels i)

/-- The pools of the channels and of the server. `links` lists the accepted connections in
    the order of the peers, each by its channel and the number of its dial. -/
structure State where
  clients : Nat → Pool (Channel.Shared × (Nat → Channel.Line)) Channel.Goroutine
  server : Pool Server.Shared Server.Goroutine
  links : List (Nat × Nat) := []

/-- Connection `d` of channel `i`. -/
def State.line (n : State) (i d : Nat) : Channel.Line := (n.clients i).shared.2 d

/-- What the server has written on connection `d` of channel `i`. -/
def State.down (n : State) (i d : Nat) : Bytes :=
  match n.server.shared.peers[n.links.idxOf (i, d)]? with
  | some peer => peer.out.received
  | none => []

/-- What the channel at the other end of peer `k` has written. -/
def State.up (n : State) (k : Nat) : Bytes :=
  match n.links[k]? with
  | some (i, d) => (n.line i d).out.received
  | none => []

/-- The number of bytes read from a peer. -/
def taken (peer : Server.Peer) : Nat := peer.received.length + (peer.reads.map frameSize).sum

/-- The bytes that the server has taken from connection `k`. -/
def State.taken (n : State) (k : Nat) : Nat :=
  match n.server.shared.peers[k]? with
  | some peer => Net.taken peer
  | none => 0

/-- `ReadFull` on what a stream still holds returns `received`. -/
def nextBytes (stream received : Bytes) : Bool :=
  match readFull stream received.length with
  | .ok (buf, _) => buf.toList == received
  | .error _ => false

/-- `ReadFrame` on what a stream still holds returns `f`. -/
def nextFrame (stream : Bytes) (f : FrameHeader × Bytes) : Bool :=
  match readFrame stream with
  | .ok (f', _) => f' == f
  | .error _ => false

/-- A read of channel `i` that succeeds returns what the server has written. -/
def State.clientReads (n : State) (i : Nat) : Channel.Goroutine → Channel.Action → Bool
  | .ensureConnected _ (.readHeader conn), .readFull (.ok received) =>
      nextBytes ((n.down i conn).drop (n.line i conn).taken) received
  | .readLoop conn _ .read, .readFrame (.ok f) =>
      nextFrame ((n.down i conn).drop (n.line i conn).taken) f
  | _, _ => true

/-- A read of the server that succeeds returns what the channel has written. -/
def State.serverReads (n : State) : Server.Goroutine → Server.Action → Bool
  | .handleConn k .readHandshake, .readFull (.ok received) =>
      nextBytes ((n.up k).drop (n.taken k)) received
  | .handleConn k .read, .readFrame (.ok f) => nextFrame ((n.up k).drop (n.taken k)) f
  | _, .accepted => false
  | _, _ => true

/-- A step of goroutine `j` of a channel or of the server; `accept` is the `Accept` of a
    connection of channel `i`, which may come before its `Dial` has returned. -/
inductive Action where
  | client (i j : Nat) (a : Channel.Action)
  | server (j : Nat) (a : Server.Action)
  | accept (j i d : Nat)

def step (cfg : Config) (n : State) : Action → Option State
  | .client i j a =>
      match (n.clients i).threads[j]?,
        (Channel.lined (cfg.client i)).machine.step (n.clients i) (j, a) with
      | some g, some client =>
          if n.clientReads i g a then some { n with clients := Function.update n.clients i client }
          else none
      | _, _ => none
  | .server j a =>
      match n.server.threads[j]?, (Server.machine cfg.server).step n.server (j, a) with
      | some g, some server =>
          if n.serverReads g a then some { n with server := server } else none
      | _, _ => none
  | .accept j i d =>
      match (Server.machine cfg.server).step n.server (j, .accepted) with
      | some server =>
          if (i, d) ∈ n.links then none
          else some { n with server := server, links := n.links ++ [(i, d)] }
      | none => none

/-- Channels and a server as one machine. -/
def machine (cfg : Config) : Machine State Action := ⟨step cfg⟩

/-- New channels and a started server. -/
def initial : State where
  clients _ := Channel.linedInitial
  server := Server.initial

end Protocomm.Go.Net
