import Palimpsest.Stage1.Addresses

/-!
# The guest's parser of the network contract

A guest has no network, or it has an address, a gateway, a netmask and a MAC address. Only one
behind NAT is told of name servers, and it is told of one at least. The contracts that are read
are the texts of these (`Palimpsest.Stage1.Init.parseNetwork_eq_some`).
-/

namespace Palimpsest.Stage1

open Json
open Init (quoted)

/-- The addresses of a guest with a network. -/
structure Addresses where
  address : Ipv4
  gateway : Ipv4
  mac : Mac
  netmask : Ipv4
  deriving DecidableEq

/-- What a guest can be told of its network. -/
inductive NetworkSpec
  | none
  | hostOnly (addresses : Addresses)
  | nat (addresses : Addresses) (first : Ipv4) (more : List Ipv4) (few : more.length ≤ 2)

namespace NetworkSpec

/-- The addresses, where there is a network. -/
def addresses? : NetworkSpec → Option Addresses
  | none => Option.none
  | hostOnly addresses => some addresses
  | nat addresses _ _ _ => some addresses

/-- The name servers. -/
def nameservers : NetworkSpec → List Ipv4
  | nat _ first more _ => first :: more
  | _ => []

/-- The mode. -/
def mode : NetworkSpec → String
  | none => "none"
  | hostOnly _ => "host-only"
  | nat .. => "nat"

/-- The text of an address, where there is a network. -/
def partText (n : NetworkSpec) (f : Addresses → Text) : Text := (n.addresses?.map f).getD []

/-- The text of the contract. -/
def text (n : NetworkSpec) : Text :=
  objText [("address", quoted (n.partText fun a => a.address.text)),
    ("gateway", quoted (n.partText fun a => a.gateway.text)), ("interface", quote "eth0"),
    ("mac", quoted (n.partText fun a => a.mac.text)), ("mode", quote n.mode),
    ("nameservers", listText (n.nameservers.map fun x => quoted x.text)),
    ("netmask", quoted (n.partText fun a => a.netmask.text))]

end NetworkSpec

namespace Init

open ByteParser
open Utf8 (asciiByte encode)

variable {l r s : List UInt8} {x : Text}

def ifnamsiz : ℕ := 16
def guestNameserverMax : ℕ := 3

/-- `struct guest_network` -/
structure GuestNetwork where
  enabled : Bool
  interface : List UInt8
  address : UInt32
  netmask : UInt32
  gateway : UInt32
  mac : List UInt8
  nameservers : List (List UInt8)
  deriving DecidableEq

/-- What an address of the contract is read as: there has to be one if and only if there is a
network. -/
def whenEnabled {α : Type} (enabled : Bool) (absent : α) (parse : List UInt8 → Option α)
    (s : List UInt8) : Option α :=
  if enabled then parse s else if s = [] then some absent else none

/-- An address of the contract after the first one. -/
def part {α : Type} (name : String) (enabled : Bool) (absent : α)
    (parse : List UInt8 → Option α) : ByteParser α := do
  let s ← field ',' name plainString
  ofOption (whenEnabled enabled absent parse s.1)

/-- Whether the mode is NAT. -/
def parseMode (enabled : Bool) (s : List UInt8) : Option Bool :=
  if enabled then
    if s = Guest.ascii "nat" then some true
    else if s = Guest.ascii "host-only" then some false
    else none
  else if s = Guest.ascii "none" then some false
  else none

/-- One turn of the loop over the name servers. -/
def nameserver (_ : Unit) : ByteParser (List UInt8 × Unit) := do
  let s ← plainString
  check (parseIpv4Span s.1).isSome
  return (s.1, ())

/-- The address, and whether there is a network. -/
def parseAddress : ByteParser (Bool × UInt32) := do
  let s ← field '{' "address" plainString
  let enabled := decide (s.1 ≠ [])
  let address ← ofOption (whenEnabled enabled 0 parseIpv4Span s.1)
  return (enabled, address)

/-- The name of the interface. -/
def parseInterface : ByteParser (List UInt8) := do
  let s ← field ',' "interface" plainString
  check (s.1 ≠ [] && s.1.length < ifnamsiz && s.1 = Guest.ascii "eth0")
  return s.1

/-- The name servers, which only NAT may have. -/
def parseNameservers (enabled : Bool) : ByteParser (List (List UInt8)) := do
  let mode ← field ',' "mode" plainString
  let nat ← ofOption (parseMode enabled mode.1)
  let nameservers ← field ',' "nameservers" (array nameserver guestNameserverMax ())
  check (if nat then nameservers.1 ≠ [] else nameservers.1 = [])
  return nameservers.1

/-- `parse_network` -/
def parseNetwork : ByteParser GuestNetwork := do
  let address ← parseAddress
  let gateway ← part "gateway" address.1 0 parseIpv4Span
  let interface ← parseInterface
  let mac ← part "mac" address.1 (List.replicate 6 0) parseMacSpan
  let nameservers ← parseNameservers address.1
  let netmask ← part "netmask" address.1 0 parseIpv4Span
  expect '}'
  return ⟨address.1, interface, address.2, netmask, gateway, mac, nameservers⟩

/-! ### The texts of addresses -/

theorem isSpanChar_of_isPlain {c : Char} (h : isPlain c = true) : isSpanChar c = true := by
  simp only [isPlain, Bool.and_eq_true, decide_eq_true_eq] at h
  rw [isSpanChar_iff]
  exact ⟨h.1.1.1, by omega, h.1.2, h.2⟩

theorem isSpan_natText (n : ℕ) : IsSpan (natText n) := by
  intro c hc
  obtain ⟨hlow, hhigh⟩ := Decimal.toNat_of_isDigit (Decimal.isDigit_of_mem_natText hc)
  have hzero : '0'.toNat = 48 := rfl
  rw [isSpanChar_iff]
  refine ⟨by omega, by omega, ?_, ?_⟩
  · rintro rfl
    exact absurd hlow (by decide)
  · rintro rfl
    exact absurd hhigh (by decide)

theorem isSpan_append {t u : Text} (ht : IsSpan t) (hu : IsSpan u) : IsSpan (t ++ u) := by
  intro c hc
  rcases List.mem_append.mp hc with hc | hc
  · exact ht c hc
  · exact hu c hc

theorem isSpan_cons {c : Char} {t : Text} (hc : isSpanChar c = true) (ht : IsSpan t) :
    IsSpan (c :: t) := List.forall_mem_cons.mpr ⟨hc, ht⟩

theorem isSpan_ipv4Text (x : Ipv4) : IsSpan x.text := by
  have hdot : isSpanChar '.' = true := by decide
  exact isSpan_append (isSpan_natText _) (isSpan_cons hdot (isSpan_append (isSpan_natText _)
    (isSpan_cons hdot (isSpan_append (isSpan_natText _) (isSpan_cons hdot (isSpan_natText _))))))

theorem isSpan_hexText (m : List UInt8) : IsSpan (Control.hexText m) := fun _ hc =>
  isSpanChar_of_isPlain (Control.isPlain_of_isHex (Control.isHex_of_mem_hexText hc))

theorem isSpan_pairsText (m : List UInt8) : IsSpan (pairsText m) := by
  induction m using pairsText.induct with
  | case1 => exact List.forall_mem_nil _
  | case2 b => exact isSpan_hexText [b]
  | case3 b m hm ih =>
    rw [pairsText]
    · exact isSpan_append (isSpan_hexText [b]) (isSpan_cons (by decide) ih)
    · exact hm

theorem ipv4Text_ne_nil (x : Ipv4) : x.text ≠ [] := by
  intro h
  exact Decimal.natText_ne_nil _ (List.append_eq_nil_iff.mp h).1

/-! ### The parts -/

section Part

variable {α β : Type} {absent v : β} {parse : List UInt8 → Option β} {view : α → β}
  {text : α → Text}

/-- How the span of an address is read. -/
structure Spans (parse : List UInt8 → Option β) (view : α → β) (text : α → Text) : Prop where
  eq_some : ∀ {s v}, parse s = some v ↔ ∃ x, v = view x ∧ s = encode (text x)
  isSpan : ∀ x, IsSpan (text x)

/-- What is read as an address is the text of one, or nothing where there is no network. -/
theorem whenEnabled_eq_some (h : Spans parse view text) {enabled : Bool} :
    whenEnabled enabled absent parse s = some v ↔ ∃ o : Option α, o.isSome = enabled ∧
      v = (o.map view).getD absent ∧ s = encode ((o.map text).getD []) := by
  cases enabled with
  | true =>
    rw [whenEnabled, if_pos rfl, h.eq_some]
    constructor
    · rintro ⟨x, rfl, rfl⟩
      exact ⟨some x, rfl, rfl, rfl⟩
    · rintro ⟨o, ho, rfl, rfl⟩
      obtain ⟨x, rfl⟩ := Option.isSome_iff_exists.mp ho
      exact ⟨x, rfl, rfl⟩
  | false =>
    rw [whenEnabled, if_neg Bool.false_ne_true, Option.ite_none_right_eq_some, Option.some.injEq]
    constructor
    · rintro ⟨rfl, rfl⟩
      exact ⟨none, rfl, rfl, rfl⟩
    · rintro ⟨o, ho, rfl, rfl⟩
      obtain rfl := Option.isNone_iff_eq_none.mp (Option.isSome_eq_false_iff.mp ho)
      exact ⟨rfl, rfl⟩

theorem isSpan_part (h : Spans parse view text) (o : Option α) : IsSpan ((o.map text).getD []) := by
  cases o with
  | none => exact List.forall_mem_nil _
  | some x => exact h.isSpan x

theorem part_eq_some (h : Spans parse view text) {enabled : Bool} {name : String}
    (hname : IsSpan name.toList) :
    part name enabled absent parse l = some (v, r) ↔ ∃ o : Option α, o.isSome = enabled ∧
      v = (o.map view).getD absent ∧
        l = fieldStart ',' name (encode (quoted ((o.map text).getD [])) ++ r) := by
  simp only [part, bind_eq_some, ofOption_eq_some,
    field_eq_some comma_ascii hname, whenEnabled_eq_some h]
  constructor
  · rintro ⟨⟨raw, n⟩, _, ⟨_, rfl, hplain⟩, ⟨o, ho, rfl, hraw⟩, rfl⟩
    obtain ⟨t, ht, rfl, -, rfl⟩ := plainString_eq_some.mp hplain
    obtain rfl := Utf8.encode_injective hraw
    exact ⟨o, ho, rfl, rfl⟩
  · rintro ⟨o, ho, rfl, rfl⟩
    exact ⟨_, r, ⟨_, rfl, plainString_eq_some.mpr ⟨_, isSpan_part h o, rfl, rfl, rfl⟩⟩,
      ⟨o, ho, rfl, rfl⟩, rfl⟩

end Part

theorem spans_ipv4 : Spans parseIpv4Span Ipv4.word Ipv4.text where
  eq_some := parseIpv4Span_eq_some
  isSpan := isSpan_ipv4Text

theorem spans_mac : Spans parseMacSpan Mac.bytes Mac.text where
  eq_some := parseMacSpan_eq_some
  isSpan := fun x => isSpan_pairsText x.bytes

/-- The name servers are read one by one. -/
theorem reads_nameserver : Reads nameserver (fun _ (_ : Ipv4) => True) (fun _ _ => ())
    (fun x => encode x.text) (fun x => quoted x.text) where
  eq_some := by
    intro st l a st' r
    simp only [nameserver, bind_eq_some, check_eq_some, pure_eq_some, Option.isSome_iff_exists,
      parseIpv4Span_eq_some, true_and]
    constructor
    · rintro ⟨⟨raw, n⟩, _, hplain, _, _, ⟨⟨_, x, -, hraw⟩, rfl⟩, heq, rfl⟩
      obtain ⟨t, -, rfl, -, rfl⟩ := plainString_eq_some.mp hplain
      obtain rfl := Utf8.encode_injective hraw
      obtain ⟨rfl, -⟩ := Prod.mk.inj heq
      exact ⟨x, rfl, rfl⟩
    · rintro ⟨x, rfl, rfl⟩
      exact ⟨_, r, plainString_eq_some.mpr ⟨x.text, isSpan_ipv4Text x, rfl, rfl, rfl⟩, (), r,
        ⟨⟨_, x, rfl, rfl⟩, rfl⟩, rfl, rfl⟩
  head_ne := fun _ => quoted_head _

theorem chain_nameserver {xs : List Ipv4} :
    Chain (fun _ _ => True) (fun _ _ => ()) () xs := by
  induction xs with
  | nil => trivial
  | cons x xs ih => exact ⟨trivial, ih⟩

/-! ### The contract -/

theorem parseMode_eq_some {enabled nat : Bool} : parseMode enabled s = some nat ↔
    enabled = true ∧ nat = true ∧ s = encode "nat".toList ∨
      enabled = true ∧ nat = false ∧ s = encode "host-only".toList ∨
        enabled = false ∧ nat = false ∧ s = encode "none".toList := by
  have hnat : Guest.ascii "nat" = encode "nat".toList := ascii_eq_encode (show IsAscii _ by decide)
  have hhost : Guest.ascii "host-only" = encode "host-only".toList :=
    ascii_eq_encode (show IsAscii _ by decide)
  have hnone : Guest.ascii "none" = encode "none".toList :=
    ascii_eq_encode (show IsAscii _ by decide)
  have hne : encode "nat".toList ≠ encode "host-only".toList := fun h =>
    absurd (Utf8.encode_injective h) (by decide)
  rw [parseMode, hnat, hhost, hnone]
  generalize encode "nat".toList = t₁ at hne
  generalize encode "host-only".toList = t₂ at hne
  generalize encode "none".toList = t₃
  cases enabled with
  | true =>
    rw [if_pos rfl]
    split_ifs with h₁ h₂
    · simp [h₁, hne, eq_comm]
    · simp [h₂, hne.symm, eq_comm]
    · simp [h₁, h₂]
  | false =>
    rw [if_neg Bool.false_ne_true]
    split_ifs with h
    · simp [h, eq_comm]
    · simp [h]

theorem parseAddress_eq_some {enabled : Bool} {w : UInt32} :
    parseAddress l = some ((enabled, w), r) ↔ ∃ o : Option Ipv4, enabled = o.isSome ∧
      w = (o.map Ipv4.word).getD 0 ∧
        l = fieldStart '{' "address" (encode (quoted ((o.map Ipv4.text).getD [])) ++ r) := by
  have hne : ∀ o : Option Ipv4,
      decide (encode ((o.map Ipv4.text).getD []) ≠ []) = o.isSome := by
    intro o
    cases o with
    | none => rfl
    | some x =>
      rw [Option.isSome_some, decide_eq_true_eq, Ne, Utf8.encode_eq_nil]
      exact ipv4Text_ne_nil x
  simp only [parseAddress, bind_eq_some, ofOption_eq_some, pure_eq_some,
    field_eq_some brace_ascii (show IsSpan "address".toList by decide),
    whenEnabled_eq_some spans_ipv4]
  constructor
  · rintro ⟨⟨raw, n⟩, _, ⟨_, rfl, hplain⟩, _, _, ⟨⟨o, ho, rfl, hraw⟩, rfl⟩, heq, rfl⟩
    obtain ⟨t, -, rfl, -, rfl⟩ := plainString_eq_some.mp hplain
    obtain rfl := Utf8.encode_injective hraw
    obtain ⟨rfl, rfl⟩ := Prod.mk.inj heq
    exact ⟨o, hne o, rfl, rfl⟩
  · rintro ⟨o, rfl, rfl, rfl⟩
    refine ⟨_, r, ⟨_, rfl, plainString_eq_some.mpr ⟨_, isSpan_part spans_ipv4 o, rfl, rfl, rfl⟩⟩, _,
      r, ⟨⟨o, (hne o).symm, rfl, rfl⟩, rfl⟩, ?_, rfl⟩
    rw [hne o]

theorem parseInterface_eq_some {x : List UInt8} : parseInterface l = some (x, r) ↔
    x = encode "eth0".toList ∧ l = fieldStart ',' "interface" (encode (quote "eth0") ++ r) := by
  have heth : Guest.ascii "eth0" = encode "eth0".toList :=
    ascii_eq_encode (show IsAscii _ by decide)
  simp only [parseInterface, bind_eq_some, check_eq_some, pure_eq_some, Bool.and_eq_true,
    decide_eq_true_eq,
    field_eq_some comma_ascii (show IsSpan "interface".toList by decide)]
  constructor
  · rintro ⟨⟨raw, n⟩, _, ⟨_, rfl, hplain⟩, _, _, ⟨⟨-, hraw⟩, rfl⟩, rfl, rfl⟩
    obtain ⟨t, -, rfl, -, rfl⟩ := plainString_eq_some.mp hplain
    obtain rfl := Utf8.encode_injective (hraw.trans heth)
    exact ⟨rfl, rfl⟩
  · rintro ⟨rfl, rfl⟩
    refine ⟨_, r, ⟨_, rfl, plainString_eq_some.mpr ⟨"eth0".toList, by decide, rfl, rfl, rfl⟩⟩, (),
      r, ⟨⟨⟨?_, ?_⟩, heth.symm⟩, rfl⟩, rfl, rfl⟩
    · exact fun h => absurd (Utf8.encode_eq_nil.mp h) (by decide)
    · rw [← heth]
      decide

/-- The text of a mode and of the name servers that go with it. -/
def NameserversOk (enabled : Bool) (mode : Text) (xs : List Ipv4) : Prop :=
  (enabled = true ∧ mode = "nat".toList ∧ xs ≠ [] ∧ xs.length ≤ guestNameserverMax) ∨
    enabled = true ∧ mode = "host-only".toList ∧ xs = [] ∨
      enabled = false ∧ mode = "none".toList ∧ xs = []

theorem parseNameservers_eq_some {enabled : Bool} {out : List (List UInt8)} :
    parseNameservers enabled l = some (out, r) ↔ ∃ mode xs, NameserversOk enabled mode xs ∧
      out = xs.map (fun x => encode x.text) ∧ l = fieldStart ',' "mode" (encode (quoted mode) ++
        fieldStart ',' "nameservers"
          (encode (listText (xs.map fun x => quoted x.text)) ++ r)) := by
  have hmap : ∀ xs : List Ipv4, xs.map (fun x => encode x.text) = [] ↔ xs = [] :=
    fun _ => List.map_eq_nil_iff
  simp only [parseNameservers, bind_eq_some, check_eq_some, ofOption_eq_some, pure_eq_some,
    Prod.exists, array_eq_some reads_nameserver, chain_nameserver, true_and, parseMode_eq_some,
    plainString_eq_some,
    field_eq_some comma_ascii (show IsSpan "mode".toList by decide),
    field_eq_some comma_ascii (show IsSpan "nameservers".toList by decide)]
  constructor
  · rintro ⟨_, _, _, ⟨_, rfl, mode, -, rfl, -, rfl⟩, nat, _, ⟨hmode, rfl⟩, _, _, _,
      ⟨_, rfl, xs, hxs, rfl, rfl⟩, _, _, ⟨hpolicy, rfl⟩, rfl, rfl⟩
    refine ⟨mode, xs, ?_, rfl, rfl⟩
    simp only [Utf8.encode_injective.eq_iff] at hmode
    -- NAT needs a nameserver; the other two modes have none.
    rcases hmode with ⟨henabled, rfl, rfl⟩ | ⟨henabled, rfl, rfl⟩ | ⟨henabled, rfl, rfl⟩
    · rw [if_pos rfl, decide_eq_true_eq, Ne, hmap] at hpolicy
      exact Or.inl ⟨henabled, rfl, hpolicy, hxs⟩
    · rw [if_neg Bool.false_ne_true, decide_eq_true_eq, hmap] at hpolicy
      exact Or.inr (Or.inl ⟨henabled, rfl, hpolicy⟩)
    · rw [if_neg Bool.false_ne_true, decide_eq_true_eq, hmap] at hpolicy
      exact Or.inr (Or.inr ⟨henabled, rfl, hpolicy⟩)
  · rintro ⟨mode, xs, hok, rfl, rfl⟩
    have hparts : ∃ nat : Bool, (enabled = true ∧ nat = true ∧ encode mode = encode "nat".toList ∨
        enabled = true ∧ nat = false ∧ encode mode = encode "host-only".toList ∨
          enabled = false ∧ nat = false ∧ encode mode = encode "none".toList) ∧ IsSpan mode ∧
        xs.length ≤ guestNameserverMax ∧
          (if nat = true then decide (xs.map (fun x => encode x.text) ≠ [])
            else decide (xs.map (fun x => encode x.text) = [])) = true := by
      rcases hok with ⟨rfl, rfl, hne, hlen⟩ | ⟨rfl, rfl, rfl⟩ | ⟨rfl, rfl, rfl⟩
      · exact ⟨true, Or.inl ⟨rfl, rfl, rfl⟩, by decide, hlen,
          decide_eq_true fun h => hne ((hmap xs).mp h)⟩
      · exact ⟨false, Or.inr (Or.inl ⟨rfl, rfl, rfl⟩), by decide, Nat.zero_le _, rfl⟩
      · exact ⟨false, Or.inr (Or.inr ⟨rfl, rfl, rfl⟩), by decide, Nat.zero_le _, rfl⟩
    obtain ⟨nat, hmode, hspan, hlen, hpolicy⟩ := hparts
    exact ⟨_, _, _, ⟨_, rfl, mode, hspan, rfl, rfl, rfl⟩, nat, _, ⟨hmode, rfl⟩, _, (), _,
      ⟨_, rfl, xs, hlen, rfl, rfl⟩, (), _, ⟨hpolicy, rfl⟩, rfl, rfl⟩

/-- What the guest reads of a contract. -/
def networkView (n : NetworkSpec) : GuestNetwork where
  enabled := n.addresses?.isSome
  interface := encode "eth0".toList
  address := (n.addresses?.map fun a => a.address.word).getD 0
  netmask := (n.addresses?.map fun a => a.netmask.word).getD 0
  gateway := (n.addresses?.map fun a => a.gateway.word).getD 0
  mac := (n.addresses?.map fun a => a.mac.bytes).getD (List.replicate 6 0)
  nameservers := n.nameservers.map fun x => encode x.text

/-- The text of a contract, from the front. -/
theorem encode_networkText (n : NetworkSpec) (r : List UInt8) : encode n.text ++ r =
    fieldStart '{' "address" (encode (quoted (n.partText fun a => a.address.text)) ++
    fieldStart ',' "gateway" (encode (quoted (n.partText fun a => a.gateway.text)) ++
    fieldStart ',' "interface" (encode (quote "eth0") ++
    fieldStart ',' "mac" (encode (quoted (n.partText fun a => a.mac.text)) ++
    fieldStart ',' "mode" (encode (quote n.mode) ++
    fieldStart ',' "nameservers" (encode (listText (n.nameservers.map fun x => quoted x.text)) ++
    fieldStart ',' "netmask" (encode (quoted (n.partText fun a => a.netmask.text)) ++
      (encode ['}'] ++ r)))))))) := encode_objText _ _ _ _

/-- The parts that are read are those of a contract. -/
theorem exists_spec {enabled : Bool} {address gateway netmask : Option Ipv4} {mac : Option Mac}
    {mode : Text} {xs : List Ipv4} (haddress : enabled = address.isSome)
    (hgateway : gateway.isSome = enabled) (hmac : mac.isSome = enabled)
    (hnetmask : netmask.isSome = enabled) (hok : NameserversOk enabled mode xs) :
    ∃ n : NetworkSpec, n.addresses?.map Addresses.address = address ∧
      n.addresses?.map Addresses.gateway = gateway ∧ n.addresses?.map Addresses.mac = mac ∧
        n.addresses?.map Addresses.netmask = netmask ∧ n.mode.toList = mode ∧
          n.nameservers = xs := by
  cases address with
  | none =>
    subst haddress
    rw [Option.isSome_none, Option.isSome_eq_false_iff,
      Option.isNone_iff_eq_none] at hgateway hmac hnetmask
    subst hgateway hmac hnetmask
    rcases hok with ⟨⟨⟩, -⟩ | ⟨⟨⟩, -⟩ | ⟨-, rfl, rfl⟩
    exact ⟨.none, rfl, rfl, rfl, rfl, rfl, rfl⟩
  | some a =>
    subst haddress
    obtain ⟨g, rfl⟩ := Option.isSome_iff_exists.mp hgateway
    obtain ⟨m, rfl⟩ := Option.isSome_iff_exists.mp hmac
    obtain ⟨k, rfl⟩ := Option.isSome_iff_exists.mp hnetmask
    rcases hok with ⟨-, rfl, hne, hlen⟩ | ⟨-, rfl, rfl⟩ | ⟨⟨⟩, -⟩
    · obtain ⟨x, xs, rfl⟩ := List.exists_cons_of_ne_nil hne
      exact ⟨.nat ⟨a, g, m, k⟩ x xs (Nat.le_of_succ_le_succ hlen), rfl, rfl, rfl, rfl, rfl, rfl⟩
    · exact ⟨.hostOnly ⟨a, g, m, k⟩, rfl, rfl, rfl, rfl, rfl, rfl⟩

theorem nameserversOk (n : NetworkSpec) :
    NameserversOk n.addresses?.isSome n.mode.toList n.nameservers := by
  cases n with
  | none => exact Or.inr (Or.inr ⟨rfl, rfl, rfl⟩)
  | hostOnly a => exact Or.inr (Or.inl ⟨rfl, rfl, rfl⟩)
  | nat a x xs few => exact Or.inl ⟨rfl, rfl, List.cons_ne_nil x xs, Nat.succ_le_succ few⟩

theorem partText_eq {α : Type} (n : NetworkSpec) (f : α → Text) (g : Addresses → α) :
    n.partText (fun a => f (g a)) = ((n.addresses?.map g).map f).getD [] := by
  rw [Option.map_map]
  rfl

/-- **The contracts that are read.** -/
theorem parseNetwork_eq_some {g : GuestNetwork} : parseNetwork l = some (g, r) ↔
    ∃ n : NetworkSpec, g = networkView n ∧ l = encode n.text ++ r := by
  simp only [parseNetwork, bind_eq_some, pure_eq_some, Prod.exists, parseAddress_eq_some,
    parseInterface_eq_some, parseNameservers_eq_some,
    part_eq_some spans_ipv4 (show IsSpan "gateway".toList by decide),
    part_eq_some spans_mac (show IsSpan "mac".toList by decide),
    part_eq_some spans_ipv4 (show IsSpan "netmask".toList by decide),
    expect_eq_some closing_ascii, encode_networkText]
  constructor
  · rintro ⟨_, _, _, ⟨address, haddress, ha, h₁⟩, _, _, ⟨gateway, hgateway, hg, h₂⟩, _, _, ⟨hi, h₃⟩,
      _, _, ⟨mac, hmac, hm, h₄⟩, _, _, ⟨mode, xs, hok, hs, h₅⟩, _, _, ⟨netmask, hnetmask, hn, h₆⟩,
      _, _, h₇, h₈, h₉⟩
    obtain ⟨n, rfl, rfl, rfl, rfl, rfl, rfl⟩ := exists_spec haddress hgateway hmac hnetmask hok
    refine ⟨n, ?_, ?_⟩
    · rw [← h₈, haddress, ha, hg, hi, hm, hs, hn]
      simp only [Option.map_map, Option.isSome_map]
      rfl
    · rw [h₁, h₂, h₃, h₄, h₅, h₆, h₇, h₉]
      simp only [Option.map_map]
      rfl
  · rintro ⟨n, rfl, rfl⟩
    rw [partText_eq n Ipv4.text Addresses.address, partText_eq n Ipv4.text Addresses.gateway,
      partText_eq n Mac.text Addresses.mac, partText_eq n Ipv4.text Addresses.netmask]
    refine ⟨_, _, _, ⟨_, Option.isSome_map.symm, rfl, rfl⟩, _, _, ⟨_, Option.isSome_map, rfl, rfl⟩,
      _, _, ⟨rfl, rfl⟩, _, _, ⟨_, Option.isSome_map, rfl, rfl⟩, _, _,
      ⟨n.mode.toList, n.nameservers, nameserversOk n, rfl, rfl⟩, _, _,
      ⟨_, Option.isSome_map, rfl, rfl⟩, (), _, rfl, ?_, rfl⟩
    simp only [Option.map_map]
    rfl

end Init

end Palimpsest.Stage1
