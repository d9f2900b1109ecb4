/-
The LAN part of a reservation as the server of a site carries it out
(server/scheduler.cc, `sdn_reserve_request` and `sdn_release_request`):
host entries on the local DTN, and a path of the SDN agent.

The neighbour and route tables of a DTN are changed by the commands of
the DTN agent (agent/dtnagent.cc). An entry of the neighbour table is
replaced by a new one for the same address; a route that is there is not
added again. The replies of the DTN agent are passed on in the result
and looked at by nobody; they are left out, and so is the SDN agent's
reply to a release.
-/
import BigDataExpress.Server.Network
import Mathlib.Logic.Function.Basic

namespace BigDataExpress

-- ============================================================ the DTN agent

/-- The neighbour table (address to MAC) and the host routes (destination
to gateway) of a DTN. -/
@[ext] structure HostTables where
  neighbors : String → Option String
  routes : String → Option String

namespace HostTables

/-- `dtn_add_neighbor` -/
def addNeighbor (ip mac : String) (t : HostTables) : HostTables :=
  if ip = "" ∨ mac = "" then t
  else { t with neighbors := Function.update t.neighbors ip (some mac) }

/-- `dtn_add_route` -/
def addRoute (destination via : String) (t : HostTables) : HostTables :=
  if destination = "" then t
  else match t.routes destination with
    | some _ => t
    | none =>
        { t with routes := Function.update t.routes destination (some via) }

/-- `dtn_delete_neighbor` -/
def deleteNeighbor (ip : String) (t : HostTables) : HostTables :=
  if ip = "" then t
  else { t with neighbors := Function.update t.neighbors ip none }

/-- `dtn_delete_route` -/
def deleteRoute (destination : String) (t : HostTables) : HostTables :=
  if destination = "" then t
  else { t with routes := Function.update t.routes destination none }

end HostTables

/-- The tables of the DTNs of a site, by their ids. -/
abbrev Hosts : Type := String → HostTables

-- ================================================================ the site

/-- What the SDN agent answers to a reservation; a call that times out
has no fields. -/
structure SdnReply where
  installedPathId : Option Int
  errorCode : String
  description : String

/-- The agents of a site at the time of a request. -/
structure SiteAgents where
  hasDtnNode : String → Bool
  hasSdn : Bool
  reserve : ReserveRequest → SdnReply

end BigDataExpress
