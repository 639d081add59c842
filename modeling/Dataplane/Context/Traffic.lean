import Dataplane.Context.Run

/-!
# Packets crossing ports

A packet that comes in by a port is stamped with it and counted. The actions of the port then decide
what becomes of it; a packet that is to go out is sent to its output port, and the port that it
crossed counts whether that worked.
-/

namespace Dataplane

namespace Context

/-- The packet and the counters of a port at the start of its pipeline. -/
def arrive (nid : Nat) (dir : Direction) (pkt : Packet) (counters : Counters) :
    Packet × Counters :=
  match dir with
  | .ingress =>
    let pkt := pkt.setInputPort nid
    (pkt, counters.count .rx pkt.length)
  | .egress => (pkt, counters)

/-- The context with the counters of a port replaced. -/
def setPortCounters (c : Context) (serial : Nat) (counters : Counters) : Context :=
  c.modifyBody serial (.modifyPort fun p => { p with counters })

/-- Sends out the packet of a run; the run counts whether that worked. -/
def sendOut (r : Run) : Disposition × Run :=
  let (state, context) := r.context.dispatch r.packet
  let event : CounterEvent := if state = Disposition.drop then .txError else .tx
  (state, { r with context }.count event)

/-- Lets a packet cross an object, where mirror actions nest at most `depth` deep. An object that is
no port drops it. -/
def receive (depth : Nat) (c : Context) (ref : Ref) (dir : Direction) (pkt : Packet) :
    Option (Disposition × Context) :=
  match c.body? ref.serial >>= Object.port? with
  | none => some (.drop, c)
  | some port => do
    let (packet, counters) := arrive ref.nid dir pkt port.counters
    let (verdict, r) ← Run.pipeline depth (port.actions dir) ⟨c, packet, counters⟩
    let (state, r) := if verdict.state = .output then sendOut r else (verdict.state, r)
    return (state, r.context.setPortCounters ref.serial r.counters)

end Context

end Dataplane
