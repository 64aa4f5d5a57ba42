import RpcClient.Proofs.Entries
import RpcClient.Routing

/-! Routing tables by their history. Settings and changes map domains to clusters and list the hosts of clusters; of
all that they say of a domain or a cluster, only what they say last counts. -/
namespace RpcClient

variable {settings : RoutingSettings} {changes : List RoutingTable.Change} {domain cluster : String}

/-- The domains of a virtual host, each with the cluster of the first route. Without routes there are none. -/
def VirtualHost.mappings (host : VirtualHost) : List (String × String) :=
  match host.routes with
  | [] => []
  | cluster :: _ => host.domains.map fun domain => (domain, cluster)

namespace RoutingTable

/-- The domains that a change maps to clusters, in its order. -/
def Change.mappings : Change → List (String × String)
  | .update hosts => hosts.flatMap VirtualHost.mappings
  | .setRoute domain cluster => [(domain, cluster)]
  | .setHosts _ _ => []

/-- The clusters whose hosts a change lists. -/
def Change.hostLists : Change → List (String × List String)
  | .setHosts cluster hosts => [(cluster, hosts)]
  | .update _ | .setRoute _ _ => []

/-- All mappings of domains in settings and in the changes behind them. -/
def mappings (settings : RoutingSettings) (changes : List Change) : List (String × String) :=
  settings.virtualHosts.flatMap VirtualHost.mappings ++ changes.flatMap Change.mappings

/-- All lists of hosts in settings and in the changes behind them. -/
def hostLists (settings : RoutingSettings) (changes : List Change) : List (String × List String) :=
  settings.clusters ++ changes.flatMap Change.hostLists

/-! ### What a table holds -/

theorem addVirtualHost_eq (table : RoutingTable) (host : VirtualHost) :
    table.addVirtualHost host = { table with domains := Entries.putAll host.mappings table.domains } := by
  rw [addVirtualHost, VirtualHost.mappings]
  cases host.routes with
  | nil => rfl
  | cons cluster routes =>
    dsimp only
    induction host.domains generalizing table with
    | nil => rfl
    | cons domain domains ih => exact ih (table.setRoute domain cluster)

theorem update_eq (table : RoutingTable) (hosts : List VirtualHost) :
    table.update hosts =
      { table with domains := Entries.putAll (hosts.flatMap VirtualHost.mappings) table.domains } := by
  rw [update]
  induction hosts generalizing table with
  | nil => rfl
  | cons host hosts ih =>
    rw [List.foldl_cons, ih, addVirtualHost_eq, List.flatMap_cons, Entries.putAll_append]

theorem change_eq (table : RoutingTable) (change : Change) :
    table.change change =
      { domains := Entries.putAll change.mappings table.domains
        clusters := Entries.putAll change.hostLists table.clusters } := by
  cases change with
  | update hosts => exact table.update_eq hosts
  | setRoute domain cluster => rfl
  | setHosts cluster hosts => rfl

theorem ofSettings_eq (settings : RoutingSettings) :
    ofSettings settings =
      { domains := Entries.putAll (settings.virtualHosts.flatMap VirtualHost.mappings) []
        clusters := Entries.putAll settings.clusters [] } := by
  have listed (table : RoutingTable) (clusters : List (String × List String)) :
      clusters.foldl (fun table entry => table.setHosts entry.1 entry.2) table =
        { table with clusters := Entries.putAll clusters table.clusters } := by
    induction clusters generalizing table with
    | nil => rfl
    | cons entry clusters ih => exact ih (table.setHosts entry.1 entry.2)
  rw [ofSettings]
  refine (listed _ settings.clusters).trans ?_
  rw [update_eq]
  rfl

theorem foldl_change_eq (table : RoutingTable) (changes : List Change) :
    changes.foldl change table =
      { domains := Entries.putAll (changes.flatMap Change.mappings) table.domains
        clusters := Entries.putAll (changes.flatMap Change.hostLists) table.clusters } := by
  induction changes generalizing table with
  | nil => rfl
  | cons first changes ih =>
    rw [List.foldl_cons, ih, change_eq, List.flatMap_cons, List.flatMap_cons, Entries.putAll_append,
      Entries.putAll_append]

theorem changed_eq (settings : RoutingSettings) (changes : List Change) :
    changes.foldl change (ofSettings settings) =
      { domains := Entries.putAll (mappings settings changes) []
        clusters := Entries.putAll (hostLists settings changes) [] } := by
  rw [foldl_change_eq, ofSettings_eq, mappings, hostLists, Entries.putAll_append, Entries.putAll_append]

/-! ### What is looked up -/

theorem cluster?_eq_none_iff : (changes.foldl change (ofSettings settings)).cluster? domain = none ↔
    ∀ mapping ∈ mappings settings changes, mapping.1 ≠ domain := by
  rw [changed_eq, cluster?, Entries.get?_putAll_nil, List.getLast?_eq_none_iff, Entries.values_eq_nil_iff]

theorem cluster?_eq_some_iff : (changes.foldl change (ofSettings settings)).cluster? domain = some cluster ↔
    Entries.Latest domain cluster (mappings settings changes) := by
  rw [changed_eq, cluster?, Entries.get?_putAll_nil, Entries.latest_iff]

theorem hosts_eq_cons_iff {host : String} {more : List String} :
    (changes.foldl change (ofSettings settings)).hosts cluster = host :: more ↔
      Entries.Latest cluster (host :: more) (hostLists settings changes) := by
  rw [changed_eq, hosts, Entries.get?_putAll_nil, Entries.latest_iff]
  cases (Entries.values cluster (hostLists settings changes)).getLast? with
  | none => simp
  | some listed => simp

theorem hosts_eq_nil_iff : (changes.foldl change (ofSettings settings)).hosts cluster = [] ↔
    ∀ listed, Entries.Latest cluster listed (hostLists settings changes) → listed = [] := by
  rw [changed_eq, hosts, Entries.get?_putAll_nil]
  simp only [Entries.latest_iff]
  cases (Entries.values cluster (hostLists settings changes)).getLast? with
  | none => simp
  | some listed => simp

/-! ### Virtual hosts of one update -/

theorem mem_mappings {host : VirtualHost} : (domain, cluster) ∈ host.mappings ↔
    domain ∈ host.domains ∧ host.routes.head? = some cluster := by
  rw [VirtualHost.mappings]
  cases host.routes with
  | nil => simp
  | cons first routes =>
    rw [List.mem_map, List.head?_cons, Option.some_inj]
    constructor
    · rintro ⟨_, member, same⟩
      cases same
      exact ⟨member, rfl⟩
    · rintro ⟨member, rfl⟩
      exact ⟨domain, member, rfl⟩

/-- Of the virtual hosts of an update that name a domain, the last one with a route decides, unless the domain is mapped
again. -/
theorem latest_update {earlier later : List Change} {front behind : List VirtualHost} {host : VirtualHost}
    (named : domain ∈ host.domains) (routed : host.routes.head? = some cluster)
    (unrouted : ∀ other ∈ behind, domain ∈ other.domains → other.routes = [])
    (unmapped : ∀ mapping ∈ later.flatMap Change.mappings, mapping.1 ≠ domain) :
    Entries.Latest domain cluster
      (mappings settings (earlier ++ .update (front ++ host :: behind) :: later)) := by
  have own : Entries.Latest domain cluster host.mappings := by
    apply Entries.latest_of_forall (mem_mappings.mpr ⟨named, routed⟩)
    intro other member
    exact Option.some.inj ((mem_mappings.mp member).2.symm.trans routed)
  have split : mappings settings (earlier ++ .update (front ++ host :: behind) :: later) =
      settings.virtualHosts.flatMap VirtualHost.mappings ++ earlier.flatMap Change.mappings ++
          front.flatMap VirtualHost.mappings ++ host.mappings ++
        (behind.flatMap VirtualHost.mappings ++ later.flatMap Change.mappings) := by
    simp [mappings, Change.mappings]
  rw [split]
  apply own.between
  rintro ⟨domain', cluster'⟩ member rfl
  obtain member | member := List.mem_append.mp member
  · obtain ⟨other, among, member⟩ := List.mem_flatMap.mp member
    obtain ⟨named', routed'⟩ := mem_mappings.mp member
    rw [unrouted other among named'] at routed'
    cases routed'
  · exact unmapped _ member rfl

end RoutingTable
end RpcClient
