import Radar.Topology.Graph

/-!
# The names of resource kinds

How a kind that a caller writes is turned into the one that a node's id or the
node itself carries, without discovery.
-/

set_option autoImplicit false

namespace Radar.Topology

/-- The value that a map literal has for a key. -/
def inTable (table : List (String × String)) (key : String) : Option String :=
  (table.find? fun entry => entry.1 = key).map Prod.snd

def topologyNodeKindAliases : List (String × String) :=
  [("pods","pod"), ("services","service"), ("deployments","deployment"), ("rollouts","rollout"),
    ("daemonsets","daemonset"), ("statefulsets","statefulset"), ("replicasets","replicaset"),
    ("ingresses","ingress"), ("gateways","gateway"), ("httproutes","httproute"),
    ("grpcroutes","grpcroute"), ("tcproutes","tcproute"), ("udproutes","udproute"),
    ("tlsroutes","tlsroute"), ("configmaps","configmap"), ("secrets","secret"),
    ("serviceaccounts","serviceaccount"), ("sealedsecrets","sealedsecret"),
    ("horizontalpodautoscalers","horizontalpodautoscaler"), ("jobs","job"), ("cronjobs","cronjob"),
    ("persistentvolumeclaims","persistentvolumeclaim"), ("applications","application"),
    ("kustomizations","kustomization"), ("helmreleases","helmrelease"),
    ("gitrepositories","gitrepository"), ("certificates","certificate"), ("issuers","issuer"),
    ("clusterissuers","clusterissuer"), ("nodepools","nodepool"), ("nodeclaims","nodeclaim"),
    ("nodeclasses","nodeclass"), ("ec2nodeclasses","nodeclass"), ("aksnodeclasses","nodeclass"),
    ("gcenodeclasses","nodeclass"), ("scaledobjects","scaledobject"), ("scaledjobs","scaledjob"),
    ("gatewayclasses","gatewayclass"), ("virtualservices","virtualservice"),
    ("destinationrules","destinationrule"), ("istiogateways","istiogateway"),
    ("serviceentries","serviceentry"), ("peerauthentications","peerauthentication"),
    ("authorizationpolicies","authorizationpolicy"), ("knativeservices","knativeservice"),
    ("configurations","knativeconfiguration"), ("revisions","knativerevision"),
    ("routes","knativeroute"), ("brokers","broker"), ("triggers","trigger"),
    ("pingsources","pingsource"), ("apiserversources","apiserversource"),
    ("containersources","containersource"), ("sinkbindings","sinkbinding"), ("channels","channel"),
    ("ingressroutes","ingressroute"), ("ingressroutetcps","ingressroutetcp"),
    ("ingressrouteudps","ingressrouteudp"), ("middlewares","middleware"),
    ("middlewaretcps","middlewaretcp"), ("traefikservices","traefikservice"),
    ("serverstransports","serverstransport"), ("serverstransporttcps","serverstransporttcp"),
    ("tlsoptions","tlsoption"), ("tlsstores","tlsstore"), ("httpproxies","httpproxy"),
    ("persistentvolumes","persistentvolume"), ("pvs","persistentvolume"),
    ("storageclasses","storageclass"), ("poddisruptionbudgets","poddisruptionbudget"),
    ("pdbs","poddisruptionbudget"), ("networkpolicies","networkpolicy"),
    ("netpol","networkpolicy"), ("ciliumnetworkpolicies","ciliumnetworkpolicy"),
    ("ciliumclusterwidenetworkpolicies","ciliumclusterwidenetworkpolicy"),
    ("clusternetworkpolicies","clusternetworkpolicy"),
    ("verticalpodautoscalers","verticalpodautoscaler"), ("servicemonitors","servicemonitor"),
    ("podmonitors","podmonitor"), ("vpas","verticalpodautoscaler"), ("nodes","node"),
    ("clusterclasses","clusterclass"), ("machines","machine"), ("machinesets","machineset"),
    ("machinedeployments","machinedeployment"), ("machinepools","machinepool"),
    ("kubeadmcontrolplanes","kubeadmcontrolplane"), ("machinehealthchecks","machinehealthcheck"),
    ("resourceclaims","resourceclaim"), ("resourceclaimtemplates","resourceclaimtemplate"),
    ("deviceclasses","deviceclass"), ("resourceslices","resourceslice")]

def topologyDisplayKinds : List (String × String) :=
  [("pod","Pod"), ("service","Service"), ("deployment","Deployment"), ("rollout","Rollout"),
    ("daemonset","DaemonSet"), ("statefulset","StatefulSet"), ("replicaset","ReplicaSet"),
    ("ingress","Ingress"), ("gateway","Gateway"), ("httproute","HTTPRoute"),
    ("grpcroute","GRPCRoute"), ("tcproute","TCPRoute"), ("udproute","UDPRoute"),
    ("tlsroute","TLSRoute"), ("configmap","ConfigMap"), ("secret","Secret"),
    ("serviceaccount","ServiceAccount"), ("sealedsecret","SealedSecret"),
    ("servicemonitor","ServiceMonitor"), ("podmonitor","PodMonitor"),
    ("horizontalpodautoscaler","HorizontalPodAutoscaler"), ("job","Job"), ("cronjob","CronJob"),
    ("persistentvolumeclaim","PersistentVolumeClaim"), ("podgroup","PodGroup"),
    ("application","Application"), ("kustomization","Kustomization"),
    ("helmrelease","HelmRelease"), ("gitrepository","GitRepository"),
    ("certificate","Certificate"), ("issuer","Issuer"), ("clusterissuer","ClusterIssuer"),
    ("node","Node"), ("nodepool","NodePool"), ("nodeclaim","NodeClaim"), ("nodeclass","NodeClass"),
    ("scaledobject","ScaledObject"), ("scaledjob","ScaledJob"), ("gatewayclass","GatewayClass"),
    ("istiogateway","Gateway"), ("knativeservice","KnativeService"),
    ("knativeconfiguration","Configuration"), ("knativerevision","Revision"),
    ("knativeroute","Route"), ("broker","Broker"), ("trigger","Trigger"),
    ("pingsource","PingSource"), ("apiserversource","ApiServerSource"),
    ("containersource","ContainerSource"), ("sinkbinding","SinkBinding"), ("channel","Channel"),
    ("ingressroute","IngressRoute"), ("ingressroutetcp","IngressRouteTCP"),
    ("ingressrouteudp","IngressRouteUDP"), ("middleware","Middleware"),
    ("middlewaretcp","MiddlewareTCP"), ("traefikservice","TraefikService"),
    ("serverstransport","ServersTransport"), ("serverstransporttcp","ServersTransportTCP"),
    ("tlsoption","TLSOption"), ("tlsstore","TLSStore"), ("httpproxy","HTTPProxy"),
    ("internet","Internet"), ("persistentvolume","PersistentVolume"),
    ("storageclass","StorageClass"), ("poddisruptionbudget","PodDisruptionBudget"),
    ("networkpolicy","NetworkPolicy"), ("ciliumnetworkpolicy","CiliumNetworkPolicy"),
    ("ciliumclusterwidenetworkpolicy","CiliumClusterwideNetworkPolicy"),
    ("clusternetworkpolicy","ClusterNetworkPolicy"),
    ("verticalpodautoscaler","VerticalPodAutoscaler"), ("capicluster","Cluster"),
    ("clusterclass","ClusterClass"), ("machine","Machine"), ("machineset","MachineSet"),
    ("machinedeployment","MachineDeployment"), ("machinepool","MachinePool"),
    ("kubeadmcontrolplane","KubeadmControlPlane"), ("machinehealthcheck","MachineHealthCheck"),
    ("resourceclaim","ResourceClaim"), ("resourceclaimtemplate","ResourceClaimTemplate"),
    ("deviceclass","DeviceClass"), ("resourceslice","ResourceSlice")]

/-- The kinds that Kubernetes ships, each with its group. -/
def builtins : List (String × String) :=
  [("Pod",""), ("Service",""), ("ConfigMap",""), ("Secret",""), ("Event",""), ("Endpoints",""),
    ("PersistentVolumeClaim",""), ("Node",""), ("Namespace",""), ("PersistentVolume",""),
    ("ServiceAccount",""), ("LimitRange",""), ("ResourceQuota",""), ("Deployment","apps"),
    ("DaemonSet","apps"), ("StatefulSet","apps"), ("ReplicaSet","apps"),
    ("ControllerRevision","apps"), ("Job","batch"), ("CronJob","batch"),
    ("HorizontalPodAutoscaler","autoscaling"), ("Ingress","networking.k8s.io"),
    ("NetworkPolicy","networking.k8s.io"), ("IngressClass","networking.k8s.io"),
    ("EndpointSlice","discovery.k8s.io"), ("Lease","coordination.k8s.io"),
    ("PriorityClass","scheduling.k8s.io"), ("RuntimeClass","node.k8s.io"),
    ("MutatingWebhookConfiguration","admissionregistration.k8s.io"),
    ("ValidatingWebhookConfiguration","admissionregistration.k8s.io"),
    ("StorageClass","storage.k8s.io"), ("VolumeAttachment","storage.k8s.io"),
    ("PodDisruptionBudget","policy"), ("Role","rbac.authorization.k8s.io"),
    ("ClusterRole","rbac.authorization.k8s.io"), ("RoleBinding","rbac.authorization.k8s.io"),
    ("ClusterRoleBinding","rbac.authorization.k8s.io"), ("ResourceClaim","resource.k8s.io"),
    ("ResourceClaimTemplate","resource.k8s.io"), ("ResourceSlice","resource.k8s.io"),
    ("DeviceClass","resource.k8s.io")]


def collisionKindToK8sKind : List (String × String) :=
  [("IstioGateway","Gateway"), ("KnativeService","Service"),
    ("KnativeConfiguration","Configuration"), ("KnativeRevision","Revision"),
    ("KnativeRoute","Route"), ("CAPICluster","Cluster"), ("CalicoNetworkPolicy","NetworkPolicy"),
    ("CalicoGlobalNetworkPolicy","GlobalNetworkPolicy"),
    ("CalicoStagedNetworkPolicy","StagedNetworkPolicy"),
    ("CalicoStagedGlobalNetworkPolicy","StagedGlobalNetworkPolicy"),
    ("CalicoStagedKubernetesNetworkPolicy","StagedKubernetesNetworkPolicy")]

/-- None for a kind that is not built in; the core group is the empty one. -/
def builtinGroup (kind : String) : Option String := inTable builtins kind

def groupForBuiltinKind (kind : String) : String := (builtinGroup kind).getD ""

section Nodes

variable (n : Node Data)

def kubernetesKindForNode : String :=
  if n.kind = kindNodeClass ∧ text n.data "resourceKind" ≠ "" then text n.data "resourceKind"
  else (inTable collisionKindToK8sKind n.kind).getD n.kind

def nodeIsCanonicalBuiltin : Bool :=
  match builtinGroup (kubernetesKindForNode n) with
  | none => false
  | some group => nodeAPIGroupFromData n = "" || nodeAPIGroupFromData n = group

/-- An apiVersion that is there is observed, also one of the core group. -/
def nodeGroup : String :=
  if text n.data "apiVersion" ≠ "" then groupFromAPIVersion (text n.data "apiVersion")
  else groupForBuiltinKind (kubernetesKindForNode n)

end Nodes

/-- `strings.ToLower` and `strings.EqualFold`, which are about all of Unicode. -/
structure Unicode where
  toLower : String → String
  equalFold : String → String → Bool

section Kinds

variable (u : Unicode)

/-- The kind that the builder gives a node, where it is not the one of the API. -/
def pseudoKindFor (kind group : String) : String :=
  let k := u.toLower kind
  if group = "serving.knative.dev" then
    if k = "service" ∨ k = "services" then "KnativeService"
    else if k = "configuration" ∨ k = "configurations" then "KnativeConfiguration"
    else if k = "revision" ∨ k = "revisions" then "KnativeRevision"
    else if k = "route" ∨ k = "routes" then "KnativeRoute"
    else kind
  else if group = "cluster.x-k8s.io" then
    if k = "cluster" ∨ k = "clusters" then "CAPICluster" else kind
  else if group = "networking.istio.io" then
    if k = "gateway" ∨ k = "gateways" then "IstioGateway" else kind
  else if group = calicoProjectGroup ∨ group = calicoCRDGroup then
    if k = "networkpolicy" ∨ k = "networkpolicies" ∨ k = "caliconetworkpolicy" then
      "CalicoNetworkPolicy"
    else if k = "globalnetworkpolicy" ∨ k = "globalnetworkpolicies" ∨
        k = "calicoglobalnetworkpolicy" then
      "CalicoGlobalNetworkPolicy"
    else if k = "stagednetworkpolicy" ∨ k = "stagednetworkpolicies" ∨
        k = "calicostagednetworkpolicy" then
      "CalicoStagedNetworkPolicy"
    else if k = "stagedglobalnetworkpolicy" ∨ k = "stagedglobalnetworkpolicies" ∨
        k = "calicostagedglobalnetworkpolicy" then
      "CalicoStagedGlobalNetworkPolicy"
    else if k = "stagedkubernetesnetworkpolicy" ∨ k = "stagedkubernetesnetworkpolicies" ∨
        k = "calicostagedkubernetesnetworkpolicy" then
      "CalicoStagedKubernetesNetworkPolicy"
    else kind
  else kind

/-- Singular and plural spellings of the Calico policies, as `buildNodeID` rewrites them. -/
def calicoNodeKinds : List (String × String) :=
  [("globalnetworkpolicy","calicoglobalnetworkpolicy"),
    ("stagednetworkpolicy","calicostagednetworkpolicy"),
    ("stagedglobalnetworkpolicy","calicostagedglobalnetworkpolicy"),
    ("stagedkubernetesnetworkpolicy","calicostagedkubernetesnetworkpolicy"),
    ("caliconetworkpolicies","caliconetworkpolicy"),
    ("globalnetworkpolicies","calicoglobalnetworkpolicy"),
    ("stagednetworkpolicies","calicostagednetworkpolicy"),
    ("stagedglobalnetworkpolicies","calicostagedglobalnetworkpolicy"),
    ("stagedkubernetesnetworkpolicies","calicostagedkubernetesnetworkpolicy")]

def buildNodeID (kind namespaceName name : String) : String :=
  let k := u.toLower kind
  let k := (inTable calicoNodeKinds k).getD k
  let k := (inTable topologyNodeKindAliases k).getD k
  k++"/"++namespaceName++"/"++name

def calicoDisplayKinds : List (String × String) :=
  [("caliconetworkpolicy","CalicoNetworkPolicy"), ("caliconetworkpolicies","CalicoNetworkPolicy"),
    ("calicoglobalnetworkpolicy","CalicoGlobalNetworkPolicy"),
    ("globalnetworkpolicy","CalicoGlobalNetworkPolicy"),
    ("globalnetworkpolicies","CalicoGlobalNetworkPolicy"),
    ("calicostagednetworkpolicy","CalicoStagedNetworkPolicy"),
    ("stagednetworkpolicy","CalicoStagedNetworkPolicy"),
    ("stagednetworkpolicies","CalicoStagedNetworkPolicy"),
    ("calicostagedglobalnetworkpolicy","CalicoStagedGlobalNetworkPolicy"),
    ("stagedglobalnetworkpolicy","CalicoStagedGlobalNetworkPolicy"),
    ("stagedglobalnetworkpolicies","CalicoStagedGlobalNetworkPolicy"),
    ("calicostagedkubernetesnetworkpolicy","CalicoStagedKubernetesNetworkPolicy"),
    ("stagedkubernetesnetworkpolicy","CalicoStagedKubernetesNetworkPolicy"),
    ("stagedkubernetesnetworkpolicies","CalicoStagedKubernetesNetworkPolicy")]

def normalizeKind (kind : String) : String :=
  match inTable calicoDisplayKinds (u.toLower kind) with
  | some normalized => normalized
  | none => (inTable topologyDisplayKinds (u.toLower kind)).getD kind

/-- A Calico policy is served by two groups and is one node. -/
def nodeMatchesAPIGroup (n : Node Data) (group : String) : Bool :=
  group = "" || nodeAPIGroupFromData n = group ||
    (nodeAPIGroupFromData n = "" && groupForBuiltinKind (kubernetesKindForNode n) = group) ||
    (isCalicoPolicyKind n.kind && (calicoNodeAPIGroups n).any fun served => u.equalFold served group)

end Kinds

end Radar.Topology
