/-
The traffic of a DTN's network interfaces (agent/dtnagent.cc,
`update_interface_traffic` and `get_interface_status`).

The kernel counts in 32 bits (`rtnl_link_stats`). The agent keeps one
record for an interface: it is filled with the counters when the agent
starts, and every update subtracts what the record holds from the new
counters and puts the rates in their place.
-/
import BigDataExpress.Utils.Json

namespace BigDataExpress

/-- The members of `rtnl_link_stats` that are in use. -/
structure LinkStats where
  rxPackets : UInt32 := 0
  txPackets : UInt32 := 0
  rxBytes : UInt32 := 0
  txBytes : UInt32 := 0
  rxErrors : UInt32 := 0
  txErrors : UInt32 := 0
  rxDropped : UInt32 := 0
  txDropped : UInt32 := 0
  deriving DecidableEq

/-- `expiry_interval_`, in milliseconds. -/
def expiryInterval : Nat := 2 * 60 * 1000

/-- `rate_per_second`: a `size_t`, stored in 32 bits again. -/
def ratePerSecond (n : UInt32) : UInt32 :=
  UInt32.ofNat (n.toNat / (expiryInterval / 1000))

/-- The rates of an agent's interfaces. -/
structure Traffic where
  linkRates : String → Option LinkStats := fun _ => none
  linkRatesComputed : Bool := false

namespace Traffic

/-- The part of `do_init` for one data interface: `emplace` leaves an
entry that is there. -/
def initInterface (iface : String) (stats : LinkStats) (t : Traffic) :
    Traffic :=
  match t.linkRates iface with
  | some _ => t
  | none =>
      { t with
        linkRates := fun i => if i = iface then some stats
          else t.linkRates i }

/-- The record after an update. -/
def updateStats (stat newstat : LinkStats) : LinkStats where
  rxPackets := ratePerSecond (newstat.rxPackets - stat.rxPackets)
  txPackets := ratePerSecond (newstat.txPackets - stat.txPackets)
  rxBytes := ratePerSecond (newstat.rxBytes - stat.rxBytes)
  txBytes := ratePerSecond (newstat.txBytes - stat.txBytes)
  rxErrors := ratePerSecond (newstat.rxErrors - stat.rxErrors)
  txErrors := ratePerSecond (newstat.txErrors - stat.txErrors)
  rxDropped := ratePerSecond (newstat.rxDropped - stat.rxDropped)
  txDropped := ratePerSecond (newstat.txDropped - stat.txDropped)

/-- `update_interface_traffic`, with what the kernel says. -/
def updateInterfaceTraffic (iface : String) (newstat : LinkStats)
    (t : Traffic) : Traffic where
  linkRates := fun i =>
    if i = iface then
      some (updateStats ((t.linkRates iface).getD {}) newstat)
    else t.linkRates i
  linkRatesComputed := true

def number (n : UInt32) : Json := .int n.toNat

/-- The `rate` member of a status. The drops are those of the errors. -/
def rateJson (rate : LinkStats) : Json :=
  .object [("rx-bytes", number rate.rxBytes),
    ("tx-bytes", number rate.txBytes),
    ("rx-packets", number rate.rxPackets),
    ("tx-packets", number rate.txPackets),
    ("rx-errors", number rate.rxErrors),
    ("tx-errors", number rate.txErrors),
    ("rx-dropped", number rate.rxErrors),
    ("tx-dropped", number rate.txErrors)]

/-- `get_interface_status` -/
def getInterfaceStatus (ifname : String) (t : Traffic) : Json :=
  match t.linkRates ifname with
  | some rate =>
      .object [("interface", .str ifname), ("rate", rateJson rate)]
  | none =>
      .object [("interface", .str ifname),
        ("error", .str ("no stats for interface " ++ ifname))]

end Traffic

end BigDataExpress
