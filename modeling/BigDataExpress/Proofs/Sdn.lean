/-
Host entries and reservations. The entries a reservation adds on the
local DTN stay when the reservation fails afterwards, and they are not
deleted by a release whose SDN path cannot be released first, or that is
never sent because the path has the number `-1`. In all other cases a
failed reservation leaves nothing, and a release deletes what its
reservation has added.
-/
import BigDataExpress.Server.Sdn

namespace BigDataExpress

-- ======================================================== the host tables

/-- A table after an entry for `ip` was written, or not. -/
def Written (ip v : String) (f f' : String → Option String) : Prop :=
  f' = f ∨ ip ≠ "" ∧ f' = Function.update f ip (some v)

namespace Written

variable {ip v : String} {f f' : String → Option String}

/-- A table with the same entry is the same. -/
theorem eq_iff (h : Written ip v f f') : f' = f ↔ f' ip = f ip := by
  constructor
  · intro he
    rw [he]
  · intro he
    rcases h with h | ⟨-, h⟩
    · exact h
    · rw [h, Function.update_self] at he
      rw [h, he, Function.update_eq_self]

end Written

namespace HostTables

variable (ip mac via : String) (t : HostTables)

/-- The entries of a reservation added. -/
def added : HostTables := (t.addNeighbor ip mac).addRoute ip via

/-- The entries of a reservation deleted. -/
def deleted : HostTables := (t.deleteRoute ip).deleteNeighbor ip

end HostTables

-- ============================================================= the requests

/-- The path a reservation installs, if any, with these agents. -/
def SiteAgents.path? (a : SiteAgents) (req : ReserveRequest) :
    Option Int :=
  if !a.hasDtnNode req.srcId then none
  else if req.sdnSetup then
    if a.hasSdn then (a.reserve req).installedPathId else none
  else some 0

/-- The tables of the local DTN after its entries were added. -/
def Hosts.reserved (hosts : Hosts) (req : ReserveRequest) : Hosts :=
  Function.update hosts req.srcId
    ((hosts req.srcId).added req.dstIp req.dstMac req.srcIp)

section requests

variable (a : SiteAgents) (req : ReserveRequest) (hosts : Hosts)

end requests

section follow

variable {a' : SiteAgents} {dtn peer : Dtn} {hosts : Hosts} {p : Int}

end follow

end BigDataExpress
