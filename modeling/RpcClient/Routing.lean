import RpcClient.Failure
import RpcClient.Json.Decoder

/-!
Routing: which cluster serves a domain, and which hosts a cluster has.
-/
namespace RpcClient

/-- Domains with the clusters of their routes, in the order of the routes. -/
structure VirtualHost where
  domains : List String
  routes : List String := []
  deriving DecidableEq, Repr, Inhabited

structure RoutingSettings where
  virtualHosts : List VirtualHost := []
  /-- Sorted by cluster, each cluster once. -/
  clusters : List (String × List String) := []
  deriving DecidableEq, Repr, Inhabited

/-- The routes and hosts in force. -/
structure RoutingTable where
  domains : List (String × String) := []
  clusters : List (String × List String) := []
  deriving DecidableEq, Repr, Inhabited

open Json.Decoder in
def VirtualHost.decoder : Json.Decoder VirtualHost :=
  record
    [field "domains" (list string) fun domains r => (some domains, r.2),
      field "routes" (list string) fun routes r => (r.1, routes)]
    ((none, []) : Option (List String) × List String)
    fun (domains, routes) => domains.map fun domains => { domains, routes }

open Json.Decoder in
def RoutingSettings.decoder : Json.Decoder RoutingSettings :=
  record
    [field "virtual_hosts" (list VirtualHost.decoder) fun hosts r => { r with virtualHosts := hosts },
      field "clusters" (members (list string)) fun clusters r =>
        { r with clusters := Entries.sortedLast clusters }]
    {} some

namespace RoutingTable

def empty : RoutingTable := {}

def setRoute (table : RoutingTable) (domain cluster : String) : RoutingTable :=
  { table with domains := Entries.put domain cluster table.domains }

def setHosts (table : RoutingTable) (cluster : String) (hosts : List String) : RoutingTable :=
  { table with clusters := Entries.put cluster hosts table.clusters }

/-- Lets the cluster of the first route serve every domain of a virtual host. Without routes,
nothing changes. -/
def addVirtualHost (table : RoutingTable) (host : VirtualHost) : RoutingTable :=
  match host.routes with
  | [] => table
  | cluster :: _ => host.domains.foldl (fun table domain => table.setRoute domain cluster) table

def update (table : RoutingTable) (hosts : List VirtualHost) : RoutingTable :=
  hosts.foldl addVirtualHost table

inductive Change where
  | update (hosts : List VirtualHost)
  | setRoute (domain cluster : String)
  | setHosts (cluster : String) (hosts : List String)
  deriving DecidableEq, Repr, Inhabited

def change (table : RoutingTable) : Change → RoutingTable
  | .update hosts => table.update hosts
  | .setRoute domain cluster => table.setRoute domain cluster
  | .setHosts cluster hosts => table.setHosts cluster hosts

def ofSettings (settings : RoutingSettings) : RoutingTable :=
  settings.clusters.foldl (fun table (cluster, hosts) => table.setHosts cluster hosts)
    (empty.update settings.virtualHosts)

/-- The cluster that serves `domain`. -/
def cluster? (table : RoutingTable) (domain : String) : Option String :=
  Entries.get? domain table.domains

def hosts (table : RoutingTable) (cluster : String) : List String :=
  (Entries.get? cluster table.clusters).getD []

/-- The host to call for `domain`: the first one of its cluster. -/
def resolve (table : RoutingTable) (domain : String) : Except Failure String :=
  match table.cluster? domain with
  | none => .error (.noRoute domain)
  | some cluster =>
    match table.hosts cluster with
    | [] => .error (.noHost cluster)
    | host :: _ => .ok host

end RoutingTable
end RpcClient
