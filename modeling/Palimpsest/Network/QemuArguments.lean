import Palimpsest.Lib.Results
import Palimpsest.Network.OciNetwork

/-!
# What the check of the QEMU arguments accepts

The check reads the forwarding rules back (`Palimpsest.Network.readForward`). What it accepts is
the vector of some forwarding rules that stand for valid ports, of which no two have the same
text (`Palimpsest.Network.validatedQemuArguments_eq_ok`).

The constructor of a configuration asks more of its ports. A vector is regular
(`Palimpsest.Network.Regular`) if its rules are written as the numbers of their ports are, and
their listeners are as the constructor wants them. The vectors of the configurations with a
network interface are the accepted ones that are regular
(`Palimpsest.Network.qemuArguments_exact`).
-/

namespace Palimpsest.Network

open Json Decimal Regex Results

variable {b : Option Char} {w a t mac : Text} {f : Forward} {p : PublishedPort}

/-! ### Checks -/

theorem require_eq_ok {ok : Bool} {message : String} {u : Unit} :
    require ok message = .ok u ↔ ok = true := by
  cases ok
  · exact iff_of_false nofun nofun
  · exact iff_of_true rfl rfl

/-- A check that comes before others. -/
theorem require_bind_eq_ok {α : Type} {ok : Bool} {message : String} {x : Except Raised α} {r : α} :
    (do require ok message; x) = .ok r ↔ ok = true ∧ x = .ok r := by
  rw [bind_eq_ok]
  constructor
  · rintro ⟨u, hok, hx⟩
    exact ⟨require_eq_ok.mp hok, hx⟩
  · rintro ⟨hok, hx⟩
    exact ⟨(), require_eq_ok.mpr hok, hx⟩

/-- A loop of checks. -/
theorem forM_eq_ok {α : Type} {l : List α} {check : α → Except Raised Unit} :
    l.forM check = .ok () ↔ ∀ x ∈ l, check x = .ok () := by
  induction l with
  | nil => exact iff_of_true rfl nofun
  | cons x l ih =>
    change (check x >>= fun _ => l.forM check) = .ok () ↔ _
    rw [bind_eq_ok, List.forall_mem_cons, ← ih]
    constructor
    · rintro ⟨_, hx, hl⟩
      exact ⟨hx, hl⟩
    · rintro ⟨hx, hl⟩
      exact ⟨⟨⟩, hx, hl⟩

/-- What a published port is checked for. -/
theorem PublishedPort.postInit_eq_ok :
    p.postInit = .ok () ↔ validHostBindAddress p.hostIp = true ∧
      (1 ≤ p.hostPort ∧ p.hostPort ≤ maxPort) ∧ (1 ≤ p.guestPort ∧ p.guestPort ≤ maxPort) ∧
      minPublishedHostPort ≤ p.hostPort ∧ p.protocol ∈ protocols := by
  simp only [postInit, require_bind_eq_ok, require_eq_ok, Bool.and_eq_true, decide_eq_true_eq]

/-- What a configuration is checked for. -/
theorem NetworkConfig.postInit_eq_ok {c : NetworkConfig} :
    c.postInit = .ok () ↔ c.ports.length ≤ maxPublishedPorts ∧ (c.mode = .none → c.ports = []) ∧
      (c.mode = .hostOnly → ∀ p ∈ c.ports, p.external = false) ∧ listenersUnique c.ports = true ∧
      wildcardsApart c.ports = true := by
  simp only [postInit, require_bind_eq_ok, require_eq_ok, decide_eq_true_eq, Bool.not_eq_true',
    Bool.and_eq_false_imp, decide_eq_false_iff_not, not_not, List.any_eq_false,
    Bool.not_eq_true]

/-! ### What the expressions match -/

theorem matches_exactly : (exactly t).Matches b w a ↔ w = t := matches_word_eq

/-- A few digits, and at least one. -/
def IsDigits (most : ℕ) (t : Text) : Prop := t ≠ [] ∧ t.length ≤ most ∧ ∀ c ∈ t, c.isDigit = true

theorem matches_digits {n : ℕ} :
    (seq digit (upTo n digit)).Matches b w a ↔ IsDigits (n + 1) w := by
  constructor
  · rintro ⟨u, v, rfl, ⟨c, rfl, hc⟩, hv⟩
    obtain ⟨hlength, hall⟩ := matches_upTo_chars.mp hv
    exact ⟨List.cons_ne_nil c v, Nat.succ_le_succ hlength, List.forall_mem_cons.mpr ⟨hc, hall⟩⟩
  · rintro ⟨hne, hlength, hall⟩
    obtain ⟨c, v, rfl⟩ := List.exists_cons_of_ne_nil hne
    obtain ⟨hc, hall⟩ := List.forall_mem_cons.mp hall
    exact ⟨[c], v, rfl, ⟨c, rfl, hc⟩,
      matches_upTo_chars.mpr ⟨Nat.le_of_succ_le_succ hlength, hall⟩⟩

/-- The octet of a strict address is one of a loose address. -/
theorem isDigits_of_octetRe (h : octetRe.Matches b w a) : IsDigits 3 w := by
  rcases h with h | ⟨u, v, rfl, ⟨c, rfl, hc⟩, hv⟩
  · obtain rfl : w = ['0'] := matches_exactly.mp h
    exact ⟨by simp, by simp, by simp⟩
  · obtain ⟨hlength, hall⟩ := matches_upTo_chars.mp hv
    have hdigit : c.isDigit = true := (Bool.and_eq_true_iff.mp hc).1
    exact ⟨List.cons_ne_nil c v, Nat.succ_le_succ hlength, List.forall_mem_cons.mpr ⟨hdigit, hall⟩⟩

/-- **A strict address is a loose one.** -/
theorem anyAddressRe_of_ipv4Re (h : ipv4Re.fullMatch t = true) :
    anyAddressRe.fullMatch t = true := by
  rw [fullMatch_iff] at h ⊢
  obtain ⟨u₁, v₁, rfl, h₁, x₂, v₂, rfl, ⟨s₂, u₂, rfl, hs₂, h₂⟩, x₃, v₃, rfl, ⟨s₃, u₃, rfl, hs₃, h₃⟩,
    x₄, v₄, rfl, ⟨s₄, u₄, rfl, hs₄, h₄⟩, hv₄⟩ := h
  obtain rfl : v₄ = [] := hv₄
  obtain rfl := matches_exactly.mp hs₂
  obtain rfl := matches_exactly.mp hs₃
  obtain rfl := matches_exactly.mp hs₄
  have hoctet : ∀ {b u a}, IsDigits 3 u → anyOctetRe.Matches b u a :=
    fun hu => matches_digits.mpr hu
  have hpoint : ∀ {b u a}, IsDigits 3 u →
      (seq anyOctetRe (exactly ['.'])).Matches b (u ++ ['.']) a :=
    fun {_ u _} hu => ⟨u, ['.'], rfl, hoctet hu, matches_exactly.mpr rfl⟩
  refine ⟨(u₁ ++ ['.']) ++ ((u₂ ++ ['.']) ++ ((u₃ ++ ['.']) ++ [])), u₄, by simp, ?_,
    hoctet (isDigits_of_octetRe h₄)⟩
  exact ⟨_, _, rfl, hpoint (isDigits_of_octetRe h₁), _, _, rfl, hpoint (isDigits_of_octetRe h₂),
    _, _, rfl, hpoint (isDigits_of_octetRe h₃), rfl⟩

theorem anyAddressRe_of_valid (h : validHostBindAddress t = true) :
    anyAddressRe.fullMatch t = true := by
  refine anyAddressRe_of_ipv4Re ?_
  by_contra hre
  rw [validHostBindAddress, octets, if_neg hre] at h
  cases h

/-! ### Forwarding rules -/

namespace Forward

/-- The `hostfwd` option. -/
def text (f : Forward) : Text :=
  "hostfwd=".toList ++ (f.protocol ++ ([':'] ++ (f.hostIp ++ ([':'] ++ (f.hostPort ++
    ("-:".toList ++ f.guestPort))))))

/-- The parts are of the form that `_NETDEV_RE` asks for. -/
structure Spelled (f : Forward) : Prop where
  protocol : f.protocol ∈ protocols
  hostIp : anyAddressRe.fullMatch f.hostIp = true
  hostPort : IsDigits 5 f.hostPort
  guestPort : IsDigits 5 f.guestPort

end Forward

theorem matches_forwardRe :
    forwardRe.Matches none w [] ↔ ∃ f : Forward, f.Spelled ∧ w = ',' :: f.text := by
  have hprotocol : ∀ {b u a}, (alt (exactly "tcp".toList) (exactly "udp".toList)).Matches b u a ↔
      u ∈ protocols := by
    intro b u a
    rw [Matches, matches_exactly, matches_exactly, protocols, List.mem_pair]
  have haddress : ∀ {b u a}, anyAddressRe.Matches b u a ↔ anyAddressRe.fullMatch u = true := by
    intro b u a
    rw [fullMatch_iff]
    exact ⟨fun h => h.plain (by decide) _ _, fun h => h.plain (by decide) _ _⟩
  constructor
  · rintro ⟨_, _, rfl, h₁, protocol, _, rfl, h₂, _, _, rfl, h₃, hostIp, _, rfl, h₄, _, _, rfl, h₅,
      hostPort, _, rfl, h₆, _, guestPort, rfl, h₇, h₈⟩
    obtain rfl := matches_exactly.mp h₁
    obtain rfl := matches_exactly.mp h₃
    obtain rfl := matches_exactly.mp h₅
    obtain rfl := matches_exactly.mp h₇
    refine ⟨⟨protocol, hostIp, hostPort, guestPort⟩, ⟨hprotocol.mp h₂, haddress.mp h₄,
      matches_digits.mp h₆, matches_digits.mp h₈⟩, rfl⟩
  · rintro ⟨f, hf, rfl⟩
    exact ⟨",hostfwd=".toList, _, rfl, matches_exactly.mpr rfl, f.protocol, _, rfl,
      hprotocol.mpr hf.protocol, [':'], _, rfl, matches_exactly.mpr rfl, f.hostIp, _, rfl,
      haddress.mpr hf.hostIp, [':'], _, rfl, matches_exactly.mpr rfl, f.hostPort, _, rfl,
      matches_digits.mpr hf.hostPort, "-:".toList, _, rfl, matches_exactly.mpr rfl,
      matches_digits.mpr hf.guestPort⟩

/-- A list joined with a separator, as its first part and what follows it. -/
theorem intercalate_cons_eq {sep : Char} (first : Text) (l : List Text) :
    [sep].intercalate (first :: l) = first ++ (l.map (sep :: ·)).flatten := by
  induction l generalizing first with
  | nil => simp
  | cons second l ih =>
    rw [List.intercalate_cons_of_ne_nil (List.cons_ne_nil second l), ih]
    simp

theorem netdevText_eq (egress : Bool) (forwards : List Text) :
    netdevText egress forwards =
      "user,id=".toList ++ netdevId ++ ",net=".toList ++ subnet ++ ",host=".toList ++ gateway ++
        ((if egress then ",dns=".toList ++ nameserver else ",restrict=on".toList) ++
          (forwards.map (',' :: ·)).flatten) := by
  rw [netdevText, baseOptions, List.cons_append, intercalate_cons_eq]
  cases egress <;> simp

/-- **The argument after `-netdev` is the options of some forwarding rules.** -/
theorem fullMatch_netdevRe : netdevRe.fullMatch t = true ↔
    ∃ egress, ∃ fs : List Forward, (∀ f ∈ fs, f.Spelled) ∧
      t = netdevText egress (fs.map Forward.text) := by
  -- The repetition is over rules, each behind a comma.
  have hstar : ∀ {b w a}, (star forwardRe).Matches b w a ↔ ∃ fs : List Forward,
      (∀ f ∈ fs, f.Spelled) ∧ w = ((fs.map Forward.text).map (',' :: ·)).flatten := by
    intro b w a
    rw [matches_star_plain (by decide)]
    constructor
    · rintro ⟨l, rfl, hl⟩
      induction l with
      | nil => exact ⟨[], nofun, rfl⟩
      | cons u l ih =>
        obtain ⟨⟨-, hu⟩, hl⟩ := List.forall_mem_cons.mp hl
        obtain ⟨fs, hfs, hw⟩ := ih hl
        obtain ⟨f, hf, rfl⟩ := matches_forwardRe.mp hu
        exact ⟨f :: fs, List.forall_mem_cons.mpr ⟨hf, hfs⟩, congrArg (',' :: f.text ++ ·) hw⟩
    · rintro ⟨fs, hfs, rfl⟩
      refine ⟨_, rfl, fun u hu => ?_⟩
      obtain ⟨o, ho, rfl⟩ := List.mem_map.mp hu
      obtain ⟨f, hf, rfl⟩ := List.mem_map.mp ho
      exact ⟨List.cons_ne_nil _ _, matches_forwardRe.mpr ⟨f, hfs f hf, rfl⟩⟩
  rw [fullMatch_iff]
  constructor
  · rintro ⟨u, v, rfl, hu, x, y, rfl, hx, hy⟩
    obtain rfl := matches_exactly.mp hu
    obtain ⟨fs, hfs, rfl⟩ := hstar.mp hy
    rcases hx with hx | hx
    · obtain rfl := matches_exactly.mp hx
      exact ⟨true, fs, hfs, (netdevText_eq true _).symm⟩
    · obtain rfl := matches_exactly.mp hx
      exact ⟨false, fs, hfs, (netdevText_eq false _).symm⟩
  · rintro ⟨egress, fs, hfs, rfl⟩
    refine ⟨_, _, netdevText_eq egress _, matches_exactly.mpr rfl, _, _, rfl, ?_,
      hstar.mpr ⟨fs, hfs, rfl⟩⟩
    cases egress
    · exact .inr (matches_exactly.mpr rfl)
    · exact .inl (matches_exactly.mpr rfl)

/-- `52:54:00(?::[0-9a-f]{2}){3}` -/
def macRe : Regex := seq (exactly macPrefix) (times 3 (seq (exactly [':']) hexPair))

/-- A MAC of QEMU's range. -/
def IsQemuMac (mac : Text) : Prop := macRe.fullMatch mac = true

theorem deviceText_append (suffix : Text) :
    deviceText (macPrefix ++ suffix) =
      "virtio-net-pci,netdev=".toList ++ netdevId ++ ",mac=".toList ++ macPrefix ++
        (suffix ++ (",bus=".toList ++ pciBus ++ ",addr=".toList ++ pciAddress)) := by
  unfold deviceText
  repeat rw [List.append_assoc]

theorem fullMatch_deviceRe :
    deviceRe.fullMatch t = true ↔ ∃ mac, IsQemuMac mac ∧ t = deviceText mac := by
  have hplain : (times 3 (seq (exactly [':']) hexPair)).isPlain = true := by decide
  simp only [IsQemuMac, fullMatch_iff, deviceRe, macRe, Matches, matches_exactly]
  constructor
  · rintro ⟨u, v, rfl, rfl, x, y, rfl, hx, rfl⟩
    exact ⟨macPrefix ++ x, ⟨macPrefix, x, rfl, rfl, hx.plain hplain _ _⟩,
      (deviceText_append x).symm⟩
  · rintro ⟨mac, ⟨u, x, rfl, rfl, hx⟩, rfl⟩
    exact ⟨_, _, deviceText_append x, rfl, x, _, rfl, hx.plain hplain _ _, rfl⟩

/-! ### Reading the rules back -/

/-- The address and the ports have none of the separators. -/
theorem Forward.Spelled.notMem {f : Forward} (h : f.Spelled) {c : Char}
    (hc : anyAddressRe.mayConsume c = false) (hprotocol : ∀ t ∈ protocols, c ∉ t) :
    c ∉ f.protocol ∧ c ∉ f.hostIp ∧ c ∉ f.hostPort ∧ c ∉ f.guestPort := by
  have hdigit : c.isDigit = false := by
    by_contra hd
    have hmay : anyAddressRe.mayConsume c = true := by
      simp [anyAddressRe, anyOctetRe, digit, times, upTo, opt, mayConsume, Bool.not_eq_false _ ▸ hd]
    rw [hmay] at hc
    cases hc
  have hport : ∀ {t}, IsDigits 5 t → c ∉ t := by
    intro t ht hmem
    rw [ht.2.2 c hmem] at hdigit
    cases hdigit
  refine ⟨hprotocol _ h.protocol, fun hmem => ?_, hport h.hostPort, hport h.guestPort⟩
  rw [(fullMatch_iff.mp h.hostIp).mayConsume hmem] at hc
  cases hc

/-- **A forwarding rule is read back.** -/
theorem readForward_text (h : f.Spelled) : readForward f.text = some f := by
  obtain ⟨hprotocol, hostIp, hostPort, -⟩ := h.notMem (c := ':') (by decide) (by decide)
  obtain ⟨-, -, hminus, -⟩ := h.notMem (c := '-') (by decide) (by decide)
  have hdrop : f.text.drop "hostfwd=".length = f.protocol ++ ([':'] ++ (f.hostIp ++ ([':'] ++
      (f.hostPort ++ ("-:".toList ++ f.guestPort))))) := rfl
  have hparts : Partition.splitMax [':'] 2 (f.text.drop "hostfwd=".length) =
      [f.protocol, f.hostIp, f.hostPort ++ ("-:".toList ++ f.guestPort)] := by
    rw [hdrop, Partition.splitMax_append hprotocol, Partition.splitMax_append hostIp,
      Partition.splitMax]
  have hports : Partition.splitMax "-:".toList 1 (f.hostPort ++ ("-:".toList ++ f.guestPort)) =
      [f.hostPort, f.guestPort] := by
    have hcut : Partition.splitMax ('-' :: [':']) 1 (f.hostPort ++ ('-' :: [':'] ++ f.guestPort)) =
        f.hostPort :: Partition.splitMax ('-' :: [':']) 0 f.guestPort :=
      Partition.splitMax_append hminus 0
    exact hcut
  simp only [readForward, hparts, hports]

theorem Forward.Spelled.comma_notMem {f : Forward} (h : f.Spelled) : ',' ∉ f.text := by
  obtain ⟨h₁, h₂, h₃, h₄⟩ := h.notMem (c := ',') (by decide) (by decide)
  exact List.not_mem_append (by decide) (List.not_mem_append h₁ (List.not_mem_append (by decide)
    (List.not_mem_append h₂ (List.not_mem_append (by decide) (List.not_mem_append h₃
      (List.not_mem_append (by decide) h₄))))))

theorem splitOn_netdevText {egress : Bool} {forwards : List Text} (h : ∀ t ∈ forwards, ',' ∉ t) :
    (netdevText egress forwards).splitOn ',' = baseOptions egress ++ forwards := by
  have hbase : ∀ egress, ∀ t ∈ baseOptions egress, ',' ∉ t := by decide
  rw [netdevText]
  refine List.splitOn_intercalate ',' (fun t ht => ?_) ?_
  · exact (List.mem_append.mp ht).elim (hbase egress t) (h t)
  · exact List.append_ne_nil_of_left_ne_nil (List.cons_ne_nil _ _) _

/-- The rules are those among the options that start as one does. -/
theorem forwardOptions_netdevText {egress : Bool} {fs : List Forward} (h : ∀ f ∈ fs, f.Spelled) :
    forwardOptions (netdevText egress (fs.map Forward.text)) = fs.map Forward.text := by
  have hbase : (baseOptions egress).filter "hostfwd=".toList.isPrefixOf = [] := by
    cases egress <;> decide
  have hrules : (fs.map Forward.text).filter "hostfwd=".toList.isPrefixOf =
      fs.map Forward.text := by
    refine List.filter_eq_self.mpr fun t ht => ?_
    obtain ⟨f, -, rfl⟩ := List.mem_map.mp ht
    exact List.isPrefixOf_iff_prefix.mpr (List.prefix_append _ _)
  rw [forwardOptions, splitOn_netdevText, List.filter_append, hbase, hrules, List.nil_append]
  intro t ht
  obtain ⟨f, hf, rfl⟩ := List.mem_map.mp ht
  exact (h f hf).comma_notMem

/-! ### What is accepted -/

/-- Forwarding rules that are accepted together. -/
structure Admitted (fs : List Forward) : Prop where
  spelled : ∀ f ∈ fs, f.Spelled
  length : fs.length ≤ maxPublishedPorts
  nodup : (fs.map Forward.text).Nodup
  valid : ∀ f ∈ fs, f.port.postInit = .ok ()

/-- The argument vector with these rules and this MAC. -/
def vectorOf (egress : Bool) (fs : List Forward) (mac : Text) : List Text :=
  argumentVector (netdevText egress (fs.map Forward.text)) (deviceText mac)

theorem checkForward_text (h : f.Spelled) : checkForward f.text = f.port.postInit := by
  rw [checkForward, readForward_text h]

/-- **What the check accepts**: the vectors of forwarding rules that are admitted. -/
theorem validatedQemuArguments_eq_ok {v r : List Text} : validatedQemuArguments v = .ok r ↔
    r = v ∧ ∃ egress fs mac, Admitted fs ∧ IsQemuMac mac ∧ v = vectorOf egress fs mac := by
  constructor
  · intro h
    match v, h with
    | [first, netdev, third, device], h =>
      obtain ⟨horder, h⟩ := require_bind_eq_ok.mp h
      obtain ⟨hvalue, h⟩ := require_bind_eq_ok.mp h
      obtain ⟨hset, h⟩ := require_bind_eq_ok.mp h
      obtain ⟨⟨⟩, hloop, hr⟩ := bind_eq_ok.mp h
      simp only [Bool.and_eq_true, decide_eq_true_eq] at horder hvalue hset
      obtain ⟨rfl, rfl⟩ := horder
      obtain ⟨egress, fs, hspelled, rfl⟩ := fullMatch_netdevRe.mp hvalue.1
      obtain ⟨mac, hmac, rfl⟩ := fullMatch_deviceRe.mp hvalue.2
      rw [forwardOptions_netdevText hspelled] at hset hloop
      refine ⟨(Except.ok.inj hr).symm, egress, fs, mac, ⟨hspelled, ?_, hset.2, fun f hf => ?_⟩,
        hmac, rfl⟩
      · rw [← List.length_map]
        exact hset.1
      · rw [← checkForward_text (hspelled f hf)]
        exact forM_eq_ok.mp hloop f.text (List.mem_map_of_mem hf)
  · rintro ⟨rfl, egress, fs, mac, hfs, hmac, rfl⟩
    rw [vectorOf, argumentVector, validatedQemuArguments]
    refine require_bind_eq_ok.mpr ⟨by decide, require_bind_eq_ok.mpr ⟨?_, ?_⟩⟩
    · rw [Bool.and_eq_true]
      exact ⟨fullMatch_netdevRe.mpr ⟨egress, fs, hfs.spelled, rfl⟩,
        fullMatch_deviceRe.mpr ⟨mac, hmac, rfl⟩⟩
    rw [forwardOptions_netdevText hfs.spelled]
    refine require_bind_eq_ok.mpr ⟨?_, bind_eq_ok.mpr ⟨(), forM_eq_ok.mpr fun t ht => ?_, rfl⟩⟩
    · rw [Bool.and_eq_true, decide_eq_true_eq, decide_eq_true_eq, List.length_map]
      exact ⟨hfs.length, hfs.nodup⟩
    · obtain ⟨f, hf, rfl⟩ := List.mem_map.mp ht
      rw [checkForward_text (hfs.spelled f hf)]
      exact hfs.valid f hf

/-! ### Regular vectors -/

/-- The forwarding rules of a vector. -/
def forwardsOf (v : List Text) : List Forward :=
  (forwardOptions (v.getD 1 [])).filterMap readForward

/-- The rules are written as numbers are, and their listeners are as the constructor of a
configuration wants them. -/
structure Regular (v : List Text) : Prop where
  canonical : ∀ f ∈ forwardsOf v,
    natText (intValue f.hostPort) = f.hostPort ∧ natText (intValue f.guestPort) = f.guestPort
  unique : listenersUnique ((forwardsOf v).map Forward.port) = true
  wildcards : wildcardsApart ((forwardsOf v).map Forward.port) = true
  loopback : "restrict=on".toList ∈ (v.getD 1 []).splitOn ',' →
    ∀ p ∈ (forwardsOf v).map Forward.port, p.external = false

theorem forwardsOf_vectorOf {egress : Bool} {fs : List Forward} (h : ∀ f ∈ fs, f.Spelled) :
    forwardsOf (vectorOf egress fs mac) = fs := by
  have hread : (fs.map Forward.text).filterMap readForward = fs.filterMap some := by
    rw [List.filterMap_map]
    exact List.filterMap_congr fun f hf => readForward_text (h f hf)
  show (forwardOptions (netdevText egress (fs.map Forward.text))).filterMap readForward = fs
  rw [forwardOptions_netdevText h, hread, List.filterMap_some]

/-- A vector is restricted if its configuration has no egress. -/
theorem restrict_mem_vectorOf {egress : Bool} {fs : List Forward} (h : ∀ f ∈ fs, f.Spelled) :
    "restrict=on".toList ∈ ((vectorOf egress fs mac).getD 1 []).splitOn ',' ↔ egress = false := by
  have hforwards : ∀ t ∈ fs.map Forward.text, ',' ∉ t ∧ "restrict=on".toList ≠ t := by
    intro t ht
    obtain ⟨f, hf, rfl⟩ := List.mem_map.mp ht
    refine ⟨(h f hf).comma_notMem, fun heq => ?_⟩
    have hfirst : some 'r' = some 'h' := congrArg List.head? heq
    cases hfirst
  have hbase : ∀ egress, "restrict=on".toList ∈ baseOptions egress ↔ egress = false := by decide
  show _ ∈ (netdevText egress (fs.map Forward.text)).splitOn ',' ↔ _
  rw [splitOn_netdevText fun t ht => (hforwards t ht).1, List.mem_append, hbase, or_iff_left]
  exact fun hmem => (hforwards _ hmem).2 rfl

/-! ### Vectors of configurations -/

/-- The texts of a port's rule. -/
def PublishedPort.forward (p : PublishedPort) : Forward :=
  ⟨p.protocol, p.hostIp, natText p.hostPort, natText p.guestPort⟩

theorem PublishedPort.option_eq (p : PublishedPort) : p.option = p.forward.text := by
  unfold PublishedPort.option Forward.text
  repeat rw [List.append_assoc]
  rfl

@[simp]
theorem PublishedPort.port_forward (p : PublishedPort) : p.forward.port = p := by
  simp [Forward.port, PublishedPort.forward]

theorem isDigits_natText {n : ℕ} (h : n ≤ maxPort) : IsDigits 5 (natText n) := by
  refine ⟨natText_ne_nil n, ?_, fun c hc => isDigit_of_mem_natText hc⟩
  have hlt : n < 10 ^ 5 := by
    unfold maxPort at h
    omega
  exact (Nat.length_toDigits_le_iff (by decide) (by decide)).mpr hlt

/-- The rule of a valid port is admitted. -/
theorem PublishedPort.spelled_forward (h : p.postInit = .ok ()) : p.forward.Spelled := by
  obtain ⟨hip, hhost, hguest, -, hprotocol⟩ := postInit_eq_ok.mp h
  exact ⟨hprotocol, anyAddressRe_of_valid hip, isDigits_natText hhost.2, isDigits_natText hguest.2⟩

namespace OCINetworkConfig

variable {c : OCINetworkConfig} {runId : Text}

/-- The argument vector of a configuration, under this MAC. -/
def rendered (c : OCINetworkConfig) (mac : Text) : List Text :=
  argumentVector (netdevText c.egress (c.1.ports.map PublishedPort.option)) (deviceText mac)

theorem rendered_eq :
    c.rendered mac = vectorOf c.egress (c.1.ports.map PublishedPort.forward) mac := by
  rw [rendered, vectorOf, List.map_map, List.map_congr_left fun p _ => p.option_eq]
  rfl

/-- The arguments of a configuration with a network interface. -/
theorem qemuArguments_eq_ok {v : List Text} (h : c.enabled = true) :
    c.qemuArguments runId = .ok v ↔
      ∃ mac, guestMacAddress runId = .ok mac ∧ v = c.rendered mac := by
  rw [qemuArguments, if_pos h, bind_eq_ok]
  constructor
  · rintro ⟨mac, hmac, hv⟩
    exact ⟨mac, hmac, (Except.ok.inj hv).symm⟩
  · rintro ⟨mac, hmac, rfl⟩
    exact ⟨mac, hmac, rfl⟩

theorem postInit_of_mem_ports (hp : p ∈ c.1.ports) : p.postInit = .ok () := by
  obtain ⟨q, -, rfl⟩ := List.mem_map.mp hp
  exact q.2

/-- The rules of a configuration are admitted. -/
theorem admitted : Admitted (c.1.ports.map PublishedPort.forward) := by
  obtain ⟨hlength, -, -, hunique, -⟩ := NetworkConfig.postInit_eq_ok.mp c.2
  refine ⟨?_, ?_, ?_, ?_⟩
  · intro f hf
    obtain ⟨p, hp, rfl⟩ := List.mem_map.mp hf
    exact PublishedPort.spelled_forward (postInit_of_mem_ports hp)
  · rwa [List.length_map]
  · -- The listener of a rule is read off its text, and no two listeners are the same.
    have hidentities : (c.1.ports.map PublishedPort.identity).Nodup := of_decide_eq_true hunique
    refine List.Nodup.of_map (fun t => (readForward t).map fun f => f.port.identity) ?_
    have hread : ∀ p ∈ c.1.ports, (readForward p.forward.text).map (fun f => f.port.identity) =
        some p.identity := by
      intro p hp
      rw [readForward_text (PublishedPort.spelled_forward (postInit_of_mem_ports hp)),
        Option.map_some, PublishedPort.port_forward]
    have hmap : ((c.1.ports.map PublishedPort.forward).map Forward.text).map (fun t =>
        (readForward t).map fun f => f.port.identity) =
        (c.1.ports.map PublishedPort.identity).map some := by
      rw [List.map_map, List.map_map, List.map_map]
      exact List.map_congr_left hread
    rw [hmap]
    exact hidentities.map (Option.some_injective _)
  · intro f hf
    obtain ⟨p, hp, rfl⟩ := List.mem_map.mp hf
    rw [PublishedPort.port_forward]
    exact postInit_of_mem_ports hp

theorem port_map_forward (ports : List PublishedPort) :
    (ports.map PublishedPort.forward).map Forward.port = ports := by
  rw [List.map_map, List.map_congr_left fun p _ => p.port_forward, List.map_id']

/-- **The vector of a configuration is regular.** -/
theorem regular (h : c.enabled = true) : Regular (c.rendered mac) := by
  obtain ⟨-, -, hloopback, hunique, hwildcards⟩ := NetworkConfig.postInit_eq_ok.mp c.2
  have hfs : forwardsOf (vectorOf c.egress (c.1.ports.map PublishedPort.forward) mac) =
      c.1.ports.map PublishedPort.forward := forwardsOf_vectorOf c.admitted.spelled
  rw [rendered_eq]
  refine ⟨?_, ?_, ?_, ?_⟩
  · rw [hfs]
    intro f hf
    obtain ⟨p, -, rfl⟩ := List.mem_map.mp hf
    simp only [PublishedPort.forward, intValue_natText, and_self]
  · rwa [hfs, port_map_forward]
  · rwa [hfs, port_map_forward]
  · rw [restrict_mem_vectorOf c.admitted.spelled, hfs, port_map_forward]
    intro hegress
    refine hloopback ?_
    cases hmode : c.1.mode with
    | none => simp [enabled, hmode] at h
    | nat => simp [egress, hmode] at hegress
    | hostOnly => rfl

end OCINetworkConfig

/-- The rule of a canonical spelling is that of its port. -/
theorem forward_port (hhost : natText (intValue f.hostPort) = f.hostPort)
    (hguest : natText (intValue f.guestPort) = f.guestPort) : f.port.forward = f := by
  simp only [PublishedPort.forward, Forward.port, hhost, hguest]

/-- The configuration that admitted rules stand for. -/
def configOf (egress : Bool) (fs : List Forward) (h : Admitted fs) : NetworkConfig where
  mode := if egress then .nat else .hostOnly
  publishedPorts := fs.pmap (fun f hf => ⟨f.port, hf⟩) h.valid

theorem ports_configOf {egress : Bool} {fs : List Forward} (h : Admitted fs) :
    (configOf egress fs h).ports = fs.map Forward.port := by
  rw [NetworkConfig.ports, configOf, List.map_pmap]
  exact List.pmap_eq_map _

/-- **A regular vector of admitted rules is the one of a configuration.** -/
theorem exists_config {egress : Bool} {fs : List Forward} (hfs : Admitted fs)
    (hregular : Regular (vectorOf egress fs mac)) :
    ∃ c : OCINetworkConfig, c.enabled = true ∧ vectorOf egress fs mac = c.rendered mac := by
  obtain ⟨hcanonical, hunique, hwildcards, hloopback⟩ := hregular
  rw [restrict_mem_vectorOf hfs.spelled] at hloopback
  rw [forwardsOf_vectorOf hfs.spelled] at hcanonical hunique hwildcards hloopback
  have hinit : (configOf egress fs hfs).postInit = .ok () := by
    rw [NetworkConfig.postInit_eq_ok, ports_configOf]
    refine ⟨?_, ?_, ?_, hunique, hwildcards⟩
    · rw [List.length_map]
      exact hfs.length
    · intro hmode
      cases egress <;> cases hmode
    · intro hmode
      cases egress
      · exact hloopback rfl
      · cases hmode
  have hegress : OCINetworkConfig.egress ⟨_, hinit⟩ = egress := by cases egress <;> rfl
  have hforwards : (configOf egress fs hfs).ports.map PublishedPort.forward = fs := by
    have hid : ∀ f ∈ fs, f.port.forward = f :=
      fun f hf => forward_port (hcanonical f hf).1 (hcanonical f hf).2
    rw [ports_configOf, List.map_map]
    exact (List.map_congr_left hid).trans (List.map_id fs)
  refine ⟨⟨_, hinit⟩, by cases egress <;> rfl, ?_⟩
  rw [OCINetworkConfig.rendered_eq, hegress, hforwards]

/-! ### The addresses of the interface -/

/-- A pair of digits of the digest. -/
theorem matches_hexPair {l : Text} {n : ℕ} (hlength : n + 2 ≤ l.length)
    (hhex : ∀ c ∈ l, Control.isHex c = true) : hexPair.Matches b ((l.drop n).take 2) a := by
  refine matches_times_chars.mpr ⟨?_, fun c hc => ?_⟩
  · rw [List.length_take, List.length_drop]
    omega
  · exact hhex c (List.mem_of_mem_drop (List.mem_of_mem_take hc))

/-- The derived address is in QEMU's range. -/
theorem isQemuMac_of_guestMacAddress {runId : Text} (h : guestMacAddress runId = .ok mac) :
    IsQemuMac mac := by
  obtain ⟨-, h⟩ := require_bind_eq_ok.mp h
  obtain ⟨hsuffix, h⟩ := require_bind_eq_ok.mp h
  obtain rfl := Except.ok.inj h
  obtain ⟨p₁, _, heq, h₁, c₁, _, rfl, hc₁, p₂, _, rfl, h₂, c₂, p₃, rfl, hc₂, h₃⟩ :=
    fullMatch_iff.mp hsuffix
  obtain rfl := matches_exactly.mp hc₁
  obtain rfl := matches_exactly.mp hc₂
  have hpair : ∀ {b u a b' a'}, hexPair.Matches b u a →
      (seq (exactly [':']) hexPair).Matches b' ([':'] ++ u) a' := fun {_ u _ _ _} hu =>
    ⟨[':'], u, rfl, matches_exactly.mpr rfl, hu.plain (by decide) _ _⟩
  rw [heq, IsQemuMac, fullMatch_iff, List.append_assoc]
  exact ⟨macPrefix, _, rfl, matches_exactly.mpr rfl, [':'] ++ p₁,
    ([':'] ++ p₂) ++ ([':'] ++ p₃ ++ []), by simp, hpair h₁, _, _, rfl, hpair h₂, _, _, rfl,
    hpair h₃, rfl⟩

/-- Every run has an address. -/
theorem exists_guestMacAddress {runId : Text} (h : Control.isUuid (String.ofList runId) = true) :
    ∃ mac, guestMacAddress runId = .ok mac := by
  have hhex : ∀ l : List UInt8, ∀ c ∈ Control.hexText (Sha256.digest l), Control.isHex c = true :=
    fun l c hc => Control.isHex_of_mem_hexText hc
  have hlength : ∀ l : List UInt8, (Control.hexText (Sha256.digest l)).length = 64 := by
    intro l
    rw [Control.length_hexText, Sha256.length_digest]
  refine ⟨_, require_bind_eq_ok.mpr ⟨h, require_bind_eq_ok.mpr ⟨?_, rfl⟩⟩⟩
  rw [fullMatch_iff]
  have hpair : ∀ {b a l n}, n ≤ 4 →
      hexPair.Matches b (((Control.hexText (Sha256.digest l)).drop n).take 2) a := by
    intro b a l n hn
    exact matches_hexPair (by rw [hlength]; omega) (hhex l)
  exact ⟨_, _, rfl, hpair (n := 0) (by decide), [':'], _, rfl, matches_exactly.mpr rfl, _, _, rfl,
    hpair (n := 2) (by decide), [':'], _, rfl, matches_exactly.mpr rfl, hpair (n := 4) (by decide)⟩

/-! ### The image of the configurations -/

/-- **The vectors of the configurations are the accepted ones that are regular.** -/
theorem rendered_iff {v : List Text} :
    (∃ c : OCINetworkConfig, ∃ mac, c.enabled = true ∧ IsQemuMac mac ∧ v = c.rendered mac) ↔
      validatedQemuArguments v = .ok v ∧ Regular v := by
  rw [validatedQemuArguments_eq_ok]
  constructor
  · rintro ⟨c, mac, henabled, hmac, rfl⟩
    exact ⟨⟨rfl, c.egress, _, mac, c.admitted, hmac, c.rendered_eq⟩, c.regular henabled⟩
  · rintro ⟨⟨-, egress, fs, mac, hfs, hmac, rfl⟩, hregular⟩
    obtain ⟨c, henabled, heq⟩ := exists_config hfs hregular
    exact ⟨c, mac, henabled, hmac, heq⟩

/-- **The check and the vectors of configurations.** The vectors of the configurations with a
network interface, under the addresses of QEMU's range, are the accepted vectors that are
regular. Every such configuration has a vector for every run, which is accepted, and under the
address of a run the accepted vectors that are regular are those of the configurations for this
run. The empty vector of a configuration without an interface is refused. -/
theorem qemuArguments_exact (v : List Text) :
    ((∃ c : OCINetworkConfig, ∃ mac, c.enabled = true ∧ IsQemuMac mac ∧ v = c.rendered mac) ↔
        validatedQemuArguments v = .ok v ∧ Regular v) ∧
      (∀ (c : OCINetworkConfig) (runId : Text), c.enabled = true →
        Control.isUuid (String.ofList runId) = true →
        ∃ w, c.qemuArguments runId = .ok w ∧ validatedQemuArguments w = .ok w) ∧
      (∀ runId mac, guestMacAddress runId = .ok mac →
        ((∃ c : OCINetworkConfig, c.enabled = true ∧ c.qemuArguments runId = .ok v) ↔
          validatedQemuArguments v = .ok v ∧ Regular v ∧ v.getD 3 [] = deviceText mac)) ∧
      ∀ (c : OCINetworkConfig) (runId : Text), c.enabled = false →
        c.qemuArguments runId = .ok [] ∧ validatedQemuArguments [] ≠ .ok [] := by
  refine ⟨rendered_iff, ?_, ?_, ?_⟩
  · intro c runId henabled hrun
    obtain ⟨mac, hmac⟩ := exists_guestMacAddress hrun
    have hrendered := rendered_iff.mp ⟨c, mac, henabled, isQemuMac_of_guestMacAddress hmac, rfl⟩
    exact ⟨_, (OCINetworkConfig.qemuArguments_eq_ok henabled).mpr ⟨mac, hmac, rfl⟩, hrendered.1⟩
  · intro runId mac hmac
    constructor
    · rintro ⟨c, henabled, hv⟩
      obtain ⟨mac', hmac', rfl⟩ := (OCINetworkConfig.qemuArguments_eq_ok henabled).mp hv
      obtain rfl : mac = mac' := Except.ok.inj (hmac.symm.trans hmac')
      obtain ⟨haccepted, hregular⟩ := rendered_iff.mp
        ⟨c, mac, henabled, isQemuMac_of_guestMacAddress hmac, rfl⟩
      exact ⟨haccepted, hregular, rfl⟩
    · rintro ⟨haccepted, hregular, hdevice⟩
      obtain ⟨c, mac', henabled, -, rfl⟩ := rendered_iff.mpr ⟨haccepted, hregular⟩
      have hrendered : c.rendered mac' = c.rendered mac :=
        congrArg (argumentVector (netdevText c.egress (c.1.ports.map PublishedPort.option))) hdevice
      exact ⟨c, henabled,
        (OCINetworkConfig.qemuArguments_eq_ok henabled).mpr ⟨mac, hmac, hrendered⟩⟩
  · intro c runId hdisabled
    refine ⟨?_, nofun⟩
    rw [OCINetworkConfig.qemuArguments, hdisabled]
    rfl

/-- No network and no ports. -/
def noNetwork : OCINetworkConfig := ⟨⟨.none, []⟩, by decide⟩

/-- A forwarding rule whose port has a leading zero. -/
def leadingZero : List Text :=
  argumentVector
    ("user,id=pnet0,net=10.0.2.0/24,host=10.0.2.2,dns=10.0.2.3,".toList ++
      "hostfwd=tcp:127.0.0.1:08080-:80".toList)
    "virtio-net-pci,netdev=pnet0,mac=52:54:00:ab:cd:ef,bus=pcie.0,addr=0x14".toList

/-- The vector without arguments is that of a configuration and is refused; and a vector is
accepted although its port is written as no configuration writes it. -/
theorem qemuArguments_differ :
    ¬(validatedQemuArguments [] = .ok [] ↔
        ∃ (c : OCINetworkConfig) (runId : Text), c.qemuArguments runId = .ok []) ∧
      ¬(validatedQemuArguments leadingZero = .ok leadingZero ↔
        ∃ (c : OCINetworkConfig) (runId : Text), c.qemuArguments runId = .ok leadingZero) := by
  constructor
  · intro h
    cases h.mpr ⟨noNetwork, [], rfl⟩
  · intro h
    have haccepted : validatedQemuArguments leadingZero = .ok leadingZero := by decide +kernel
    obtain ⟨c, runId, hv⟩ := h.mp haccepted
    cases henabled : c.enabled with
    | false =>
      rw [OCINetworkConfig.qemuArguments, henabled] at hv
      cases hv
    | true =>
      obtain ⟨mac, -, heq⟩ := (OCINetworkConfig.qemuArguments_eq_ok henabled).mp hv
      have hregular : Regular leadingZero := heq ▸ c.regular henabled
      have hcanonical : ¬∀ f ∈ forwardsOf leadingZero, natText (intValue f.hostPort) = f.hostPort ∧
          natText (intValue f.guestPort) = f.guestPort := by
        decide +kernel
      exact hcanonical hregular.canonical

end Palimpsest.Network
