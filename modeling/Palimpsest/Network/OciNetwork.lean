import Palimpsest.Control.Grammar
import Palimpsest.Lib.Decimal
import Palimpsest.Lib.Partition
import Palimpsest.Lib.Regex

/-!
# The network of an OCI-root run

A run has a network mode and published ports (`OCINetworkConfig`). Its network interface is
written as four arguments of QEMU (`OCINetworkConfig.qemuArguments`), and arguments that are
found in a domain are checked before they are trusted (`validatedQemuArguments`).

A configuration and a published port carry the proof that they passed the checks of their
constructor, so there are no others.
-/

namespace Palimpsest.Network

open Json Decimal Regex
open Control (encodeUtf8 hexText isUuid)

/-- What is raised. -/
inductive Raised
  /-- `ArtifactValidationError`, with its text. -/
  | artifactValidation (message : String)
  | valueError
  deriving DecidableEq

/-- A check that raises the error with this text. -/
def require (ok : Bool) (message : String) : Except Raised Unit :=
  if ok then .ok () else .error (.artifactValidation message)

/-! ### Constants -/

def subnet : Text := "10.0.2.0/24".toList
def gateway : Text := "10.0.2.2".toList
def nameserver : Text := "10.0.2.3".toList
def netdevId : Text := "pnet0".toList
def pciBus : Text := "pcie.0".toList
def pciAddress : Text := "0x14".toList
def macPrefix : Text := "52:54:00".toList
def protocols : List Text := ["tcp".toList, "udp".toList]
def wildcardHostIp : Text := "0.0.0.0".toList
def maxPublishedPorts : ℕ := 32
def minPublishedHostPort : ℕ := 1024
def maxPort : ℕ := 65535

/-! ### Addresses -/

/-- A text as it is. -/
def exactly (t : Text) : Regex := word (fun c d => c = d) t

/-- `[0-9]` -/
def digit : Regex := chars Char.isDigit

/-- `0|[1-9][0-9]{0,2}` -/
def octetRe : Regex :=
  alt (exactly ['0']) (seq (chars fun c => c.isDigit && c ≠ '0') (upTo 2 digit))

/-- `_IPV4_RE`. -/
def ipv4Re : Regex := seq octetRe (times 3 (seq (exactly ['.']) octetRe))

/-- `_octets`, of a string. -/
def octets (value : Text) : Option (List ℕ) :=
  if ipv4Re.fullMatch value then
    let parts := (value.splitOn '.').map intValue
    if parts.any fun item => 255 < item then none else some parts
  else none

/-- `valid_host_bind_address`. -/
def validHostBindAddress (value : Text) : Bool :=
  match octets value with
  | none => false
  | some parts => decide (parts.headD 0 < 224)

/-- `loopback_host_bind_address`. -/
def loopbackHostBindAddress (value : Text) : Bool :=
  match octets value with
  | none => false
  | some parts => decide (parts.headD 0 = 127)

/-! ### Published ports -/

/-- The fields of a published port. -/
structure PublishedPort where
  hostIp : Text
  hostPort : ℕ
  guestPort : ℕ
  protocol : Text
  deriving DecidableEq

namespace PublishedPort

/-- What is said of a port that is out of range. -/
def rangeMessage (label : String) : String :=
  "published " ++ label ++ " port must be between 1 and 65535"

/-- `OCIPublishedPort.__post_init__`. -/
def postInit (p : PublishedPort) : Except Raised Unit := do
  require (validHostBindAddress p.hostIp) "published port host address must be an IPv4 literal"
  require (1 ≤ p.hostPort && p.hostPort ≤ maxPort) (rangeMessage "host")
  require (1 ≤ p.guestPort && p.guestPort ≤ maxPort) (rangeMessage "guest")
  require (minPublishedHostPort ≤ p.hostPort) ("published host port must be 1024 or above; " ++
    "the VM process never receives privileged-port authority")
  require (p.protocol ∈ protocols) "published port protocol must be tcp or udp"

/-- `external`. -/
def external (p : PublishedPort) : Bool := !loopbackHostBindAddress p.hostIp

/-- `identity`. -/
def identity (p : PublishedPort) : Text × ℕ × Text := (p.hostIp, p.hostPort, p.protocol)

/-- The `hostfwd` option of a port. -/
def option (p : PublishedPort) : Text :=
  "hostfwd=".toList ++ p.protocol ++ [':'] ++ p.hostIp ++ [':'] ++ natText p.hostPort ++
    "-:".toList ++ natText p.guestPort

end PublishedPort

/-- A port that passed its checks. -/
abbrev OCIPublishedPort := {p : PublishedPort // p.postInit = .ok ()}

/-! ### Configurations -/

/-- `OCI_NETWORK_MODES`. -/
inductive Mode
  | none
  | nat
  | hostOnly
  deriving DecidableEq

/-- No two ports have the same listener. -/
def listenersUnique (ports : List PublishedPort) : Bool :=
  (ports.map PublishedPort.identity).Nodup

/-- The ports and protocols at the wildcard address, or at the others. -/
def listenersAt (isWildcard : Bool) (ports : List PublishedPort) : List (ℕ × Text) :=
  (ports.filter fun p => decide (p.hostIp = wildcardHostIp) = isWildcard).map fun p =>
    (p.hostPort, p.protocol)

/-- No port is taken at the wildcard address and at another one. -/
def wildcardsApart (ports : List PublishedPort) : Bool :=
  (listenersAt true ports).all fun listener => listener ∉ listenersAt false ports

/-- The fields of a configuration. -/
structure NetworkConfig where
  mode : Mode
  publishedPorts : List OCIPublishedPort

namespace NetworkConfig

/-- The fields of the published ports. -/
def ports (c : NetworkConfig) : List PublishedPort := c.publishedPorts.map Subtype.val

/-- `OCINetworkConfig.__post_init__`, of typed fields. -/
def postInit (c : NetworkConfig) : Except Raised Unit := do
  require (c.ports.length ≤ maxPublishedPorts) "at most 32 ports can be published for one run"
  require (!(c.mode = .none && c.ports ≠ []))
    "--publish requires --network nat or --network host-only"
  require (!(c.mode = .hostOnly && c.ports.any PublishedPort.external))
    ("host-only networking publishes to loopback addresses only; " ++
      "use --network nat for external exposure")
  require (listenersUnique c.ports) "published host listeners must be unique"
  require (wildcardsApart c.ports)
    "a published port cannot use both a wildcard and a specific host address"

end NetworkConfig

/-- A configuration that passed its checks. -/
abbrev OCINetworkConfig := {c : NetworkConfig // c.postInit = .ok ()}

namespace OCINetworkConfig

variable (c : OCINetworkConfig)

/-- `enabled`. -/
def enabled : Bool := c.1.mode ≠ .none

/-- `egress`. -/
def egress : Bool := c.1.mode = .nat

end OCINetworkConfig

/-! ### The arguments of QEMU -/

/-- `[0-9a-f]{2}` -/
def hexPair : Regex := times 2 (chars Control.isHex)

/-- `_MAC_SUFFIX_RE`. -/
def macSuffixRe : Regex :=
  seq hexPair (seq (exactly [':']) (seq hexPair (seq (exactly [':']) hexPair)))

/-- `guest_mac_address`. -/
def guestMacAddress (runId : Text) : Except Raised Text := do
  require (isUuid (String.ofList runId)) "OCI network MAC derivation requires a canonical run ID"
  let digest := hexText (Sha256.digest
    (encodeUtf8 ("palimpsest-oci-root-network-mac-v1\x00".toList ++ runId)))
  let suffix := [':'].intercalate ([0, 2, 4].map fun index => (digest.drop index).take 2)
  require (macSuffixRe.fullMatch suffix) "derived OCI network MAC is invalid"
  return macPrefix ++ [':'] ++ suffix

/-- The options before the forwarding rules. -/
def baseOptions (egress : Bool) : List Text :=
  ["user".toList, "id=".toList ++ netdevId, "net=".toList ++ subnet, "host=".toList ++ gateway,
    if egress then "dns=".toList ++ nameserver else "restrict=on".toList]

/-- The argument after `-netdev`, with these forwarding rules. -/
def netdevText (egress : Bool) (forwards : List Text) : Text :=
  [','].intercalate (baseOptions egress ++ forwards)

/-- The argument after `-device`. -/
def deviceText (mac : Text) : Text :=
  "virtio-net-pci,netdev=".toList ++ netdevId ++ ",mac=".toList ++ mac ++ ",bus=".toList ++
    pciBus ++ ",addr=".toList ++ pciAddress

/-- The four arguments. -/
def argumentVector (netdev device : Text) : List Text :=
  ["-netdev".toList, netdev, "-device".toList, device]

/-- `qemu_arguments`. -/
def OCINetworkConfig.qemuArguments (c : OCINetworkConfig) (runId : Text) :
    Except Raised (List Text) :=
  if c.enabled then do
    let mac ← guestMacAddress runId
    let netdev := netdevText c.egress (c.1.ports.map PublishedPort.option)
    return argumentVector netdev (deviceText mac)
  else .ok []

/-! ### The check of the arguments -/

/-- `[0-9]{1,3}` -/
def anyOctetRe : Regex := seq digit (upTo 2 digit)

/-- `(?:[0-9]{1,3}\.){3}[0-9]{1,3}` -/
def anyAddressRe : Regex := seq (times 3 (seq anyOctetRe (exactly ['.']))) anyOctetRe

/-- `[0-9]{1,5}` -/
def anyPortRe : Regex := seq digit (upTo 4 digit)

/-- `,hostfwd=(?:tcp|udp):…:…-:…`, with an address and two ports. -/
def forwardRe : Regex :=
  seq (exactly ",hostfwd=".toList) (seq (alt (exactly "tcp".toList) (exactly "udp".toList))
    (seq (exactly [':']) (seq anyAddressRe (seq (exactly [':']) (seq anyPortRe
      (seq (exactly "-:".toList) anyPortRe))))))

/-- `_NETDEV_RE`. -/
def netdevRe : Regex :=
  seq (exactly ("user,id=".toList ++ netdevId ++ ",net=".toList ++ subnet ++ ",host=".toList ++
      gateway))
    (seq (alt (exactly (",dns=".toList ++ nameserver)) (exactly ",restrict=on".toList))
      (star forwardRe))

/-- `_DEVICE_RE`. -/
def deviceRe : Regex :=
  seq (exactly ("virtio-net-pci,netdev=".toList ++ netdevId ++ ",mac=".toList ++ macPrefix))
    (seq (times 3 (seq (exactly [':']) hexPair))
      (exactly (",bus=".toList ++ pciBus ++ ",addr=".toList ++ pciAddress)))

/-- The texts of a forwarding rule. -/
structure Forward where
  protocol : Text
  hostIp : Text
  hostPort : Text
  guestPort : Text
  deriving DecidableEq

/-- The forwarding rules among the options of an argument. -/
def forwardOptions (netdev : Text) : List Text :=
  (netdev.splitOn ',').filter "hostfwd=".toList.isPrefixOf

/-- The parts of a forwarding rule, unless there are too few of them to unpack. -/
def readForward (forward : Text) : Option Forward :=
  match Partition.splitMax [':'] 2 (forward.drop "hostfwd=".length) with
  | [protocol, hostIp, endpoint] =>
    match Partition.splitMax "-:".toList 1 endpoint with
    | [hostPort, guestPort] => some ⟨protocol, hostIp, hostPort, guestPort⟩
    | _ => none
  | _ => none

/-- The port that a forwarding rule stands for. -/
def Forward.port (f : Forward) : PublishedPort :=
  ⟨f.hostIp, intValue f.hostPort, intValue f.guestPort, f.protocol⟩

/-- One turn of the loop over the forwarding rules. -/
def checkForward (forward : Text) : Except Raised Unit :=
  match readForward forward with
  | none => .error .valueError
  | some f => f.port.postInit

/-- `validated_qemu_arguments`, of a sequence of strings. -/
def validatedQemuArguments : List Text → Except Raised (List Text)
  | [first, netdev, third, device] => do
    require (first = "-netdev".toList && third = "-device".toList)
      "OCI-root QEMU network argument order is invalid"
    require (netdevRe.fullMatch netdev && deviceRe.fullMatch device)
      "OCI-root QEMU network argument value is invalid"
    let forwards := forwardOptions netdev
    require (forwards.length ≤ maxPublishedPorts && forwards.Nodup)
      "OCI-root QEMU network forwarding set is invalid"
    forwards.forM checkForward
    return [first, netdev, third, device]
  | _ => .error (.artifactValidation "OCI-root QEMU network argument vector is invalid")

end Palimpsest.Network
