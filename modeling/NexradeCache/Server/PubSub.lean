import Mathlib.Data.List.Basic
import NexradeCache.Server.Connection

/-!
# Publish and subscribe (`nexrade-core/src/pubsub.rs`, `do_subscribe`, `do_unsubscribe` and
`run_subscribe_mode` of `nexrade-server/src/connection.rs`)

The broker has a sender and a count for each channel and each pattern. A subscription starts a relay,
which takes the messages of the sender that it was started with and hands them to its connection, as
long as there are any. A relay goes on when the connection unsubscribes or closes.

SUBSCRIBE and UNSUBSCRIBE take their channels one by one (`Work`), so that other connections come in
between. `due` records what a connection is to get: a message for each of its subscriptions that matches,
at the time it is published. No buffer is ever full.
-/

namespace NexradeCache

namespace Broker

/-! ## The broker -/

/-- A pattern (`true`) or a channel, by name. -/
abbrev Target := Bool × Bytes

/-- A message on the channel is for the subscription. -/
def Target.covers (channel : Bytes) (t : Target) : Bool := if t.1 then globMatch t.2 channel else t.2 = channel

/-- What a subscription gets; `kind` is that of its target. -/
structure Message where
  target : Target
  source : Bytes
  payload : Bytes
deriving DecidableEq

/-- A count of 0 is none, and then there is no sender. A sender is known by when it was created. -/
structure PubSub where
  counts : Target → Nat
  senders : Target → Option Nat
  created : Nat

namespace PubSub

/-- No channel, no subscriber. -/
def new : PubSub := ⟨fun _ => 0, fun _ => none, 0⟩

/-- The sender of the target, made if there is none. -/
def subscribe (t : Target) (b : PubSub) : PubSub × Nat :=
  let counts := Function.update b.counts t (b.counts t + 1)
  match b.senders t with
  | some sender => ({ b with counts }, sender)
  | none => (⟨counts, Function.update b.senders t (some b.created), b.created + 1⟩, b.created)

/-- The last one takes the sender along. -/
def unsubscribe (t : Target) (b : PubSub) : PubSub :=
  if b.counts t = 0 then b
  else if b.counts t = 1 then
    { b with counts := Function.update b.counts t 0, senders := Function.update b.senders t none }
  else { b with counts := Function.update b.counts t (b.counts t - 1) }

end PubSub

/-! ## Connections and relays -/

/-- What a request has left to do, channel by channel. -/
inductive Work where
  | subscribe (t : Target)
  | unsubscribe (t : Target)
  /-- Behind UNSUBSCRIBE: leave if there is no channel. -/
  | check
deriving DecidableEq

/-- A connection: its subscriptions, what it has still to do, what has come for it, what was written out, and, as a
record, what is due to it. -/
structure Subscriber where
  isOpen : Bool
  /-- In `run_subscribe_mode`. -/
  subscribing : Bool
  /-- `pattern_subscriptions` and `subscriptions`. -/
  channels : Bool → List Bytes
  work : List Work
  inbox : List Message
  delivered : List Message
  due : List Message

namespace Subscriber

/-- A connection without a subscription. -/
def new : Subscriber := ⟨true, false, fun _ => [], [], [], [], []⟩

/-- All that it is subscribed to. -/
def targets (c : Subscriber) : List Target := (c.channels false).map (false, ·) ++ (c.channels true).map (true, ·)

/-- One subscription more. -/
def add (c : Subscriber) (t : Target) : Subscriber :=
  { c with channels := Function.update c.channels t.1 (c.channels t.1 ++ [t.2]) }

/-- One fewer. -/
def drop (c : Subscriber) (t : Target) : Subscriber :=
  { c with channels := Function.update c.channels t.1 ((c.channels t.1).filter (· ≠ t.2)) }

/-- It is gone. -/
def close (c : Subscriber) : Subscriber :=
  { c with isOpen := false, subscribing := false, channels := fun _ => [], work := [], inbox := [] }

end Subscriber

/-- The task of one subscription: it takes the messages of its sender to the connection. -/
structure Relay where
  conn : Nat
  target : Target
  sender : Nat
  queue : List Message

/-- All but the queue. -/
def Relay.route (r : Relay) : Nat × Target × Nat := (r.conn, r.target, r.sender)

/-- The broker, the connections, the relays, and what was published. -/
structure World where
  broker : PubSub
  conns : Nat → Subscriber
  /-- How many connections there were. -/
  accepted : Nat
  relays : List Relay

namespace World

/-- Nobody is there. -/
def new : World := ⟨.new, fun _ => Subscriber.new.close, 0, []⟩

/-- One connection changes. -/
def put (w : World) (i : Nat) (c : Subscriber) : World := { w with conns := Function.update w.conns i c }

/-! ## Steps -/

/-- The requests of a connection that is not in the middle of one. -/
def request (i : Nat) (args : List Resp) (w : World) : World :=
  let c := w.conns i
  let cmd := cmdName args
  let names := (args.drop 1).filterMap Resp.toBytesVec
  if ["SUBSCRIBE", "PSUBSCRIBE", "SSUBSCRIBE"].contains cmd then
    w.put i { c with subscribing := true, work := names.map fun name => .subscribe (cmd = "PSUBSCRIBE", name) }
  else if !c.subscribing then w
  else if ["UNSUBSCRIBE", "PUNSUBSCRIBE", "SUNSUBSCRIBE"].contains cmd then
    let isPattern : Bool := cmd = "PUNSUBSCRIBE"
    let names := if args.length ≤ 1 then c.channels isPattern else names
    w.put i { c with work := names.map (fun name => .unsubscribe (isPattern, name)) ++ [.check] }
  else if cmd = "QUIT" || cmd = "RESET" then w.put i c.close
  else w

/-- A connection does the next piece of its work: it subscribes, unsubscribes, or looks whether a subscription is
left. -/
def work (i : Nat) (w : World) : World :=
  let c := w.conns i
  match c.work with
  | [] => w
  | .subscribe t :: rest =>
    if t.2 ∈ c.channels t.1 then w.put i { c with work := rest }
    else
      let (broker, sender) := w.broker.subscribe t
      { w.put i { c.add t with work := rest } with broker, relays := w.relays ++ [⟨i, t, sender, []⟩] }
  | .unsubscribe t :: rest => { w.put i { c.drop t with work := rest } with broker := w.broker.unsubscribe t }
  | .check :: rest => w.put i (if c.channels false = [] then c.close else { c with work := rest })

/-- The relay takes the messages of the broker. -/
def live (w : World) (r : Relay) : Bool := w.broker.senders r.target = some r.sender

/-- PUBLISH: a message goes to the channel and to every pattern that covers it. -/
def publish (channel payload : Bytes) (w : World) : World :=
  { w with
    relays := w.relays.map fun r =>
      if w.live r && r.target.covers channel then { r with queue := r.queue ++ [⟨r.target, channel, payload⟩] } else r
    conns := fun i =>
      let c := w.conns i
      { c with due := c.due ++ (c.targets.filter (Target.covers channel)).map fun t => ⟨t, channel, payload⟩ } }

/-- A relay hands a message over; that of a closed connection is lost. -/
def forward (k : Nat) (w : World) : World :=
  match w.relays[k]? with
  | some ⟨conn, target, sender, m :: queue⟩ =>
    let c := w.conns conn
    { w.put conn (if c.isOpen then { c with inbox := c.inbox ++ [m] } else c) with
      relays := w.relays.set k ⟨conn, target, sender, queue⟩ }
  | _ => w

/-- A connection writes a message out. -/
def write (i : Nat) (w : World) : World :=
  let c := w.conns i
  match c.inbox with
  | m :: inbox => if c.subscribing && c.work = [] then w.put i { c with inbox, delivered := c.delivered ++ [m] } else w
  | [] => w

/-- What can happen to the broker and its connections. -/
inductive Event where
  | connect
  | request (i : Nat) (args : List Resp)
  | work (i : Nat)
  | disconnect (i : Nat)
  | publish (channel payload : Bytes)
  | forward (k : Nat)
  | write (i : Nat)

/-- Messages move on. -/
def Event.moves : Event → Bool
  | .forward _ | .write _ => true
  | _ => false

/-- The connection reads its next request. -/
def idle (w : World) (i : Nat) : Bool := (w.conns i).isOpen && (w.conns i).work = []

/-- One event, wherever it happens. -/
def step (e : Event) (w : World) : World :=
  match e with
  | .connect => { w.put w.accepted .new with accepted := w.accepted + 1 }
  | .request i args => if w.idle i then w.request i args else w
  | .work i => w.work i
  | .disconnect i => if w.idle i then w.put i (w.conns i).close else w
  | .publish channel payload => w.publish channel payload
  | .forward k => w.forward k
  | .write i => w.write i

end World

end Broker

end NexradeCache
