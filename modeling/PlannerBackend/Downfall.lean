import PlannerBackend.Delivery
import PlannerBackend.Presence
import PlannerBackend.Process

set_option autoImplicit false

namespace Planner

open Docs Resume

section Sockets

variable (known : Row UserField → Prop)

end Sockets

section Lives

variable {pkg : Packages}

-- One process answers the requests and serves the sockets.
def Deployment.down (deployment : Deployment pkg) : Bool := Resume.down deployment.web || deployment.sockets.crashed

variable (throws : String → Bool)

-- A client picks the name under which its news is broadcast, and emit throws
-- on some of the names that socket.io keeps for itself.
def throwing (server : SocketServer) : SocketEvent → Bool
  | .newMeeting i name => (server.sockets[i]?).any (·.connected) && throws name
  | .updateInfo i name => (server.sockets[i]?).any (·.connected) && throws name
  | _ => false

def Deployment.next (deployment : Deployment pkg) : Event pkg → Deployment pkg
  | .web label => deployment.step (.web label)
  | .socket event =>
      if throwing throws deployment.sockets event then { deployment with sockets := { deployment.sockets with crashed := true } }
      else deployment.step (.socket event)

def Deployment.live : List (Event pkg) → Deployment pkg → Deployment pkg
  | [], deployment => deployment
  | event :: rest, deployment => if deployment.down then deployment else Deployment.live rest (deployment.next throws event)

end Lives

end Planner
