import Monkey.Lib.ByteOrder
import Monkey.Lib.CInt
import Monkey.Strings

/-!
# Monkey.Mandril.Addresses

The addresses the mandril plugin refuses: the rules `Deny_IP` of its configuration, and
the stage 10 hook.

The hook has `getpeername` write the socket address over a `struct in_addr`, and reads
the family and the port for the address.

The number that an address is depends on the order of bytes of the machine, and the macros for a
subnet compute with words in network order as if they were numbers.  Both orders are modelled.
`inet_aton` is a parameter.
-/

namespace Monkey.Mandril

/-! ## the macros of mk_macros.h -/

section order

variable (order : ByteOrder)

/-- `MK_NET_NETMASK`. -/
def mkNetNetmask (net : Nat) : BitVec 32 := htonl order (0xffffffff#32 <<< (32 - net))

/-- `MK_NET_BROADCAST`. -/
def mkNetBroadcast (addr : BitVec 32) (net : Nat) : BitVec 32 := addr ||| ~~~ mkNetNetmask order net

/-- `MK_NET_NETWORK`. -/
def mkNetNetwork (addr : BitVec 32) (net : Nat) : BitVec 32 := addr &&& mkNetNetmask order net

/-- `MK_NET_HOSTMIN`. -/
def mkNetHostmin (addr : BitVec 32) (net : Nat) : BitVec 32 :=
  if net = 31 then mkNetNetwork order addr net else mkNetNetwork order addr net + 0x01000000#32

/-- `MK_NET_HOSTMAX`. -/
def mkNetHostmax (addr : BitVec 32) (net : Nat) : BitVec 32 :=
  if net = 31 then mkNetBroadcast order addr net else mkNetBroadcast order addr net - 0x01000000#32

/-! ## the configuration -/

/-- `struct mk_secure_ip_t`. -/
structure SecureIp where
  ip : BitVec 32
  isSubnet : Bool := false
  network : BitVec 32 := 0
  netmask : Nat := 0
  hostmin : BitVec 32 := 0
  hostmax : BitVec 32 := 0
deriving DecidableEq, Repr

/-- A subnet, with the fields the macros compute. -/
def SecureIp.subnet (ip : BitVec 32) (netmask : Nat) : SecureIp where
  ip := ip
  isSubnet := true
  network := mkNetNetwork order ip netmask
  netmask := netmask
  hostmin := mkNetHostmin order ip netmask
  hostmax := mkNetHostmax order ip netmask

variable (inetAton : Bytes → Option (BitVec 32))

/-- The `Deny_IP` part of `mk_security_conf`: the entry linked for a value, if any.
`inetAton` reads an address, which `inet_aton` stores in network order. -/
def mkSecurityIp (val : Bytes) : Option SecureIp :=
  let n := mkStringSearchI val [0x2f]
  if n > 0 then
    match mkStringCopySubstr val 0 n, mkStringCopySubstr val (n + 1) (strlen val) with
    | some net, some mask =>
        (inetAton net).bind fun a =>
          let netmask := toInt (strtol mask)
          if netmask ≤ 0 ∨ netmask ≥ 32 then none
          else some (SecureIp.subnet order (htonl order a) netmask.toNat)
    | _, _ => none
  else (inetAton val).map fun a => { ip := htonl order a }

/-- `mk_security_conf`: the entries of the section `RULES`, keys and values. -/
def mkSecurityConf : List (Bytes × Bytes) → List SecureIp × List Bytes
  | [] => ([], [])
  | (key, val) :: entries =>
      let (ips, urls) := mkSecurityConf entries
      if strcasecmp key (ascii "Deny_IP".toList) then ((mkSecurityIp order inetAton val).toList ++ ips, urls)
      else if strcasecmp key (ascii "Deny_URL".toList) then (ips, val :: urls)
      else (ips, urls)

/-! ## the hook -/

/-- `struct sockaddr_in` of an IPv4 peer. -/
structure SockaddrIn where
  port : BitVec 16
  addr : BitVec 32
deriving DecidableEq, Repr

/-- The bytes of `AF_INET`, a number of the machine. -/
def afInet : List (BitVec 8) :=
  match order with
  | .little => [2, 0]
  | .big => [0, 2]

/-- The bytes of a socket address: port and address are in network order. -/
def SockaddrIn.bytes (peer : SockaddrIn) : List (BitVec 8) :=
  afInet order ++ [peer.port.extractLsb' 8 8, peer.port.extractLsb' 0 8] ++
    [octet peer.addr 3, octet peer.addr 2, octet peer.addr 1, octet peer.addr 0] ++ List.replicate 8 0

/-- The four bytes of `addr_t` behind `getpeername`, as `addr->s_addr`.  The length given
is that of a pointer: with 64 bits four more bytes of the socket address go past `addr_t`. -/
def sAddr (peer : SockaddrIn) : BitVec 32 :=
  match peer.bytes order with
  | m₀ :: m₁ :: m₂ :: m₃ :: _ => order.read m₀ m₁ m₂ m₃
  | _ => 0

/-- The test of the loop over the entries. -/
def mkSecurityIpTest (addr : BitVec 32) (entry : SecureIp) : Bool :=
  if entry.isSubnet then
    mkNetNetwork order addr entry.netmask == entry.network &&
      (decide (addr ≤ entry.hostmax) && decide (entry.hostmin ≤ addr))
  else addr == entry.ip

/-- `mk_security_check_ip`; there is no peer where `getpeername` fails. -/
def mkSecurityCheckIp (mkSecureIp : List SecureIp) : Option SockaddrIn → Int
  | none => -1
  | some peer => if mkSecureIp.any (mkSecurityIpTest order (sAddr order peer)) then -1 else 0

/-- `MK_PLUGIN_RET_CLOSE_CONX`. -/
def mkPluginRetCloseConx : Int := 300

/-- `_mkp_stage_10`. -/
def mkpStage10 (mkSecureIp : List SecureIp) (peer : Option SockaddrIn) : Int :=
  if mkSecurityCheckIp order mkSecureIp peer ≠ 0 then mkPluginRetCloseConx else mkPluginRetContinue

end order

/-! ## rules -/

/-- A rule: an address, or a subnet by an address and the bits of its network. -/
inductive DenyIp
  | address (a : BitVec 32)
  | subnet (a : BitVec 32) (m : Nat) (pos : 0 < m) (lt : m < 32)
deriving DecidableEq

/-- The entry of a rule. -/
def DenyIp.entry (order : ByteOrder) : DenyIp → SecureIp
  | .address a => { ip := htonl order a }
  | .subnet a m _ _ => SecureIp.subnet order (htonl order a) m

/-- The addresses of a rule: of a subnet its hosts, which are all of it where it has two. -/
def DenyIp.Matches : DenyIp → BitVec 32 → Prop
  | .address a, x => x = a
  | .subnet a m _ _, x =>
      x.toNat / 2 ^ (32 - m) = a.toNat / 2 ^ (32 - m) ∧
        (m = 31 ∨ x.toNat % 2 ^ (32 - m) ≠ 0 ∧ x.toNat % 2 ^ (32 - m) ≠ 2 ^ (32 - m) - 1)

/-- The addresses the test finds.  A little-endian machine tells the hosts by their bits
in the last octet, a big-endian one by the distance of a first octet. -/
def DenyIp.Finds (order : ByteOrder) : DenyIp → BitVec 32 → Prop
  | .address a, x => x = a
  | .subnet a m _ _, x =>
      x.toNat / 2 ^ (32 - m) = a.toNat / 2 ^ (32 - m) ∧
        (m = 31 ∨
          match order with
          | .little => x.toNat % 2 ^ min 8 (32 - m) ≠ 0 ∧
              x.toNat % 2 ^ min 8 (32 - m) ≠ 2 ^ min 8 (32 - m) - 1
          | .big => 2 ^ 24 ≤ x.toNat % 2 ^ (32 - m) ∧ x.toNat % 2 ^ (32 - m) + 2 ^ 24 < 2 ^ (32 - m))

/-! ## the entries are those of rules -/

section conf

variable {order : ByteOrder} {inetAton : Bytes → Option (BitVec 32)}

theorem mkSecurityIp_entry {val : Bytes} {e : SecureIp} (h : mkSecurityIp order inetAton val = some e) :
    ∃ rule : DenyIp, e = rule.entry order := by
  unfold mkSecurityIp at h
  dsimp only at h
  split at h
  · split at h
    · next net mask _ _ =>
        obtain ⟨a, -, ha⟩ := Option.bind_eq_some_iff.mp h
        split at ha
        · contradiction
        · next hmask =>
            obtain rfl := Option.some.inj ha
            exact ⟨.subnet a (toInt (strtol mask)).toNat (by omega) (by omega), rfl⟩
    · contradiction
  · obtain ⟨a, -, rfl⟩ := Option.map_eq_some_iff.mp h
    exact ⟨.address a, rfl⟩

/-- **Every list** the configuration leads to is one of rules. -/
theorem mkSecurityConf_rules (entries : List (Bytes × Bytes)) :
    ∃ rules : List DenyIp, (mkSecurityConf order inetAton entries).1 = rules.map (DenyIp.entry order) := by
  induction entries with
  | nil => exact ⟨[], rfl⟩
  | cons e entries ih =>
      obtain ⟨key, val⟩ := e
      obtain ⟨rules, hrules⟩ := ih
      unfold mkSecurityConf
      dsimp only
      split
      · cases hip : mkSecurityIp order inetAton val with
        | none => exact ⟨rules, hrules⟩
        | some e =>
            obtain ⟨rule, rfl⟩ := mkSecurityIp_entry hip
            exact ⟨rule :: rules, by rw [hrules]; rfl⟩
      · split
        · exact ⟨rules, hrules⟩
        · exact ⟨rules, hrules⟩

/-- The first slash is where the search finds it. -/
theorem mkStringSearchI_slash {net : Bytes} (mask : Bytes) (hnul : 0 ∉ net) (hslash : 0x2f ∉ net) :
    mkStringSearchI (net ++ 0x2f :: mask) [0x2f] = net.length := by
  unfold mkStringSearchI strcasestr
  rw [cstr_append hnul, show cstr (0x2f :: mask) = 0x2f :: cstr mask from rfl, List.map_append]
  rw [findSub_eq_some (p := net.length)]
  · rfl
  · rw [← List.length_map (f := toupper), List.drop_left, List.map_cons, List.map_cons]
    exact List.prefix_append [_] _
  · rw [List.length_append, List.length_map]
    omega
  · intro q hq hpre
    rw [List.drop_append_of_le_length (by rw [List.length_map]; omega), ← List.map_drop,
      List.drop_eq_getElem_cons hq, List.map_cons, List.map_cons, List.cons_append] at hpre
    have hc : net[q] = 0x2f := eq_of_toupper_eq (List.cons_prefix_cons.mp hpre).1.symm (by decide)
    exact hslash (hc ▸ List.getElem_mem hq)

/-- A subnet in the configuration. -/
theorem mkSecurityIp_subnet {net mask : Bytes} {a : BitVec 32} {m : Nat} (pos : 0 < m) (lt : m < 32)
    (hnul : 0 ∉ net ++ 0x2f :: mask) (hslash : 0x2f ∉ net) (hne : net ≠ []) (hnet : inetAton net = some a)
    (hmask : strtol mask = m) :
    mkSecurityIp order inetAton (net ++ 0x2f :: mask) = some ((DenyIp.subnet a m pos lt).entry order) := by
  obtain ⟨hnul₁, hnul₂⟩ := not_or.mp fun h => hnul (List.mem_append.mpr h)
  have hpos := List.length_pos_iff.mpr hne
  have hlen : strlen (net ++ 0x2f :: mask) = net.length + 1 + mask.length := by
    rw [strlen, cstr_eq_self hnul, List.length_append, List.length_cons]
    omega
  unfold mkSecurityIp
  rw [mkStringSearchI_slash mask hnul₁ hslash]
  dsimp only
  rw [if_pos (by omega), mkStringCopySubstr, if_neg (by omega), mkStringCopySubstr, if_neg (by omega), hlen]
  have htake : ((net ++ 0x2f :: mask).drop (0 : Int).toNat).take ((net.length : Int) - 0).toNat = net := by simp
  have hdrop : ((net ++ 0x2f :: mask).drop ((net.length : Int) + 1).toNat).take
      (((net.length + 1 + mask.length : Nat) : Int) - (net.length + 1)).toNat = mask := by
    rw [show ((net.length : Int) + 1).toNat = net.length + 1 by omega,
      show (((net.length + 1 + mask.length : Nat) : Int) - (net.length + 1)).toNat = mask.length by omega]
    simp
  rw [htake, hdrop]
  dsimp only
  rw [hnet, hmask, Option.bind_some, toInt_eq_self (by omega) (by omega), if_neg (by omega)]
  rfl

end conf

/-! ## the test -/

/-- The upper bits of the last octet. -/
theorem upper_mod (n k : Nat) : n / 2 ^ k * 2 ^ k % 256 + n % 2 ^ min 8 k = n % 256 := by
  by_cases hk : 8 ≤ k
  · have hdvd : 256 ∣ n / 2 ^ k * 2 ^ k := Dvd.dvd.mul_left (pow_dvd_pow 2 hk) _
    rw [min_eq_left hk, Nat.mod_eq_zero_of_dvd hdvd, Nat.zero_add, show 2 ^ 8 = 256 from rfl]
  · rw [min_eq_right (by omega)]
    have hlt : k < 8 := by omega
    interval_cases k
    all_goals omega

/-- The last octet with the lower bits set. -/
theorem upper_add_mod (n k : Nat) :
    (n / 2 ^ k * 2 ^ k + (2 ^ k - 1)) % 256 = n / 2 ^ k * 2 ^ k % 256 + (2 ^ min 8 k - 1) := by
  by_cases hk : 8 ≤ k
  · obtain ⟨j, rfl⟩ := Nat.exists_eq_add_of_le hk
    have hpos := Nat.two_pow_pos j
    rw [min_eq_left hk, pow_add]
    generalize n / (2 ^ 8 * 2 ^ j) = q
    rw [show q * (2 ^ 8 * 2 ^ j) = 256 * (q * 2 ^ j) by ring]
    generalize q * 2 ^ j = r
    omega
  · rw [min_eq_right (by omega)]
    have hlt : k < 8 := by omega
    interval_cases k
    all_goals omega

section test

variable {order : ByteOrder} {x a : BitVec 32} {k : Nat}

/-- The first address of the network of `x` with `k` bits for the hosts. -/
def netOf (k : Nat) (x : BitVec 32) : BitVec 32 := x &&& 0xffffffff#32 <<< k

/-- The last one. -/
def broadcastOf (k : Nat) (x : BitVec 32) : BitVec 32 := x ||| ~~~ (0xffffffff#32 <<< k)

theorem netOf_toNat (k : Nat) (x : BitVec 32) : (netOf k x).toNat = x.toNat / 2 ^ k * 2 ^ k := toNat_and_mask x k

theorem broadcastOf_toNat (x : BitVec 32) (hk : k ≤ 32) :
    (broadcastOf k x).toNat = x.toNat / 2 ^ k * 2 ^ k + (2 ^ k - 1) :=
  toNat_or_not_mask x hk

theorem netOf_eq_iff : netOf k x = netOf k a ↔ x.toNat / 2 ^ k = a.toNat / 2 ^ k := by
  rw [← BitVec.toNat_inj, netOf_toNat, netOf_toNat]
  exact Nat.mul_left_inj (Nat.two_pow_pos k).ne'

theorem broadcastOf_congr (hk : k ≤ 32) (h : x.toNat / 2 ^ k = a.toNat / 2 ^ k) : broadcastOf k x = broadcastOf k a := by
  apply BitVec.eq_of_toNat_eq
  rw [broadcastOf_toNat x hk, broadcastOf_toNat a hk, h]

theorem mkNetNetwork_htonl (m : Nat) : mkNetNetwork order (htonl order x) m = htonl order (netOf (32 - m) x) := by
  rw [mkNetNetwork, mkNetNetmask, ← htonl_and]
  rfl

theorem mkNetBroadcast_htonl (m : Nat) :
    mkNetBroadcast order (htonl order x) m = htonl order (broadcastOf (32 - m) x) := by
  rw [mkNetBroadcast, mkNetNetmask, ← htonl_not, ← htonl_or]
  rfl

/-- **The range of hosts on a little-endian machine**. -/
theorem range_little_iff (hk : 2 ≤ k) (hk32 : k ≤ 32) :
    (htonl .little x ≤ htonl .little (broadcastOf k x) - 0x01000000#32 ∧
      htonl .little (netOf k x) + 0x01000000#32 ≤ htonl .little x) ↔
        x.toNat % 2 ^ min 8 k ≠ 0 ∧ x.toNat % 2 ^ min 8 k ≠ 2 ^ min 8 k - 1 := by
  have hnet : (octet (netOf k x) 0).toNat + x.toNat % 2 ^ min 8 k = (octet x 0).toNat := by
    rw [octet_toNat, octet_toNat, netOf_toNat, Nat.mul_zero, Nat.pow_zero, Nat.div_one, Nat.div_one, upper_mod]
  have hbroadcast : (octet (broadcastOf k x) 0).toNat = (octet (netOf k x) 0).toNat + (2 ^ min 8 k - 1) := by
    rw [octet_toNat, octet_toNat, netOf_toNat, broadcastOf_toNat x hk32, Nat.mul_zero, Nat.pow_zero, Nat.div_one,
      Nat.div_one, upper_add_mod]
  have hfour : 2 ^ 2 ≤ 2 ^ min 8 k := Nat.pow_le_pow_right (by decide) (by omega)
  have hlow : x.toNat % 2 ^ min 8 k < 2 ^ min 8 k := Nat.mod_lt _ (Nat.two_pow_pos _)
  have hlast := octet_lt (broadcastOf k x) 0
  have hmax := @htonl_little_le_sub (broadcastOf k x) x (fun i => octet_le_or x _ i) (by omega)
  have hmin := @htonl_little_add_le (netOf k x) x (fun i => octet_and_le x _ i) (by omega)
  rw [hmax, hmin]
  omega

/-- **The range of hosts on a big-endian machine**. -/
theorem range_big_iff (hk32 : k ≤ 32) :
    (x ≤ broadcastOf k x - 0x01000000#32 ∧ netOf k x + 0x01000000#32 ≤ x) ↔
      2 ^ 24 ≤ x.toNat % 2 ^ k ∧ x.toNat % 2 ^ k + 2 ^ 24 < 2 ^ k := by
  have hx := x.isLt
  have hsplit := Nat.div_add_mod' x.toNat (2 ^ k)
  have hlow : x.toNat % 2 ^ k < 2 ^ k := Nat.mod_lt _ (Nat.two_pow_pos k)
  -- a network ends where the next one starts
  have hroom : x.toNat / 2 ^ k * 2 ^ k + 2 ^ k ≤ 2 ^ 32 := by
    rw [← Nat.succ_mul]
    obtain ⟨c, hc⟩ := pow_dvd_pow 2 hk32
    rw [hc, Nat.mul_comm (2 ^ k) c]
    apply Nat.mul_le_mul_right
    rw [hc] at hx
    exact Nat.div_lt_of_lt_mul hx
  rw [BitVec.le_def, BitVec.le_def, BitVec.toNat_sub, BitVec.toNat_add, netOf_toNat, broadcastOf_toNat x hk32,
    BitVec.toNat_ofNat]
  generalize x.toNat / 2 ^ k * 2 ^ k = net at hsplit hroom ⊢
  generalize x.toNat % 2 ^ k = low at hsplit hlow ⊢
  generalize 2 ^ k = size at hlow hroom ⊢
  omega

/-- A network of two has both between its ends. -/
theorem range_two : htonl order x ≤ htonl order (broadcastOf k x) ∧ htonl order (netOf k x) ≤ htonl order x := by
  cases order with
  | little => exact ⟨htonl_little_le fun i => octet_le_or x _ i, htonl_little_le fun i => octet_and_le x _ i⟩
  | big =>
      rw [htonl_big, htonl_big, htonl_big, BitVec.le_def, BitVec.le_def, broadcastOf, netOf, BitVec.toNat_or,
        BitVec.toNat_and]
      exact ⟨Nat.left_le_or, Nat.and_le_left⟩

/-- **The test** of the entry of a rule on an address. -/
theorem mkSecurityIpTest_entry (rule : DenyIp) :
    mkSecurityIpTest order (htonl order x) (rule.entry order) = true ↔ rule.Finds order x := by
  cases rule with
  | address a =>
      show (htonl order x == htonl order a) = true ↔ x = a
      rw [beq_iff_eq, htonl_inj]
  | subnet a m pos lt =>
      show (mkNetNetwork order (htonl order x) m == mkNetNetwork order (htonl order a) m &&
        (decide (htonl order x ≤ mkNetHostmax order (htonl order a) m) &&
          decide (mkNetHostmin order (htonl order a) m ≤ htonl order x))) = true ↔ _
      rw [Bool.and_eq_true, Bool.and_eq_true, beq_iff_eq, decide_eq_true_eq, decide_eq_true_eq,
        mkNetNetwork_htonl, mkNetNetwork_htonl, htonl_inj, netOf_eq_iff]
      refine and_congr_right fun hnet => ?_
      rw [mkNetHostmax, mkNetHostmin, mkNetNetwork_htonl, mkNetBroadcast_htonl,
        ← broadcastOf_congr (by omega) hnet, ← netOf_eq_iff.mpr hnet]
      by_cases hm : m = 31
      · rw [if_pos hm, if_pos hm, or_iff_left_of_imp fun _ => hm, iff_true_right hm]
        exact range_two
      · rw [if_neg hm, if_neg hm, or_iff_right hm]
        cases order with
        | little => exact range_little_iff (by omega) (by omega)
        | big =>
            rw [htonl_big, htonl_big, htonl_big]
            exact range_big_iff (by omega)

end test

/-! ## who is refused -/

/-- Some rule has the address. -/
def Denied (rules : List DenyIp) (x : BitVec 32) : Prop := ∃ rule ∈ rules, rule.Matches x

/-- The test finds the address in some rule. -/
def Found (order : ByteOrder) (rules : List DenyIp) (x : BitVec 32) : Prop := ∃ rule ∈ rules, rule.Finds order x

/-- What the hook takes for the address of a peer: family and port. -/
def seenAddress (order : ByteOrder) (port : BitVec 16) : BitVec 32 :=
  match order with
  | .little => word 2 0 (port.extractLsb' 8 8) (port.extractLsb' 0 8)
  | .big => word 0 2 (port.extractLsb' 8 8) (port.extractLsb' 0 8)

/-- The family, as the first half of what is taken for an address: `2.0`, or `0.2`. -/
def familyHalf : ByteOrder → Nat
  | .little => 0x0200
  | .big => 0x0002

/-- The hook closes the connection of a peer. -/
def Closes (order : ByteOrder) (rules : List DenyIp) (peer : SockaddrIn) : Prop :=
  mkpStage10 order (rules.map (DenyIp.entry order)) (some peer) = mkPluginRetCloseConx

section

variable {order : ByteOrder} {rules : List DenyIp}

theorem sAddr_eq (peer : SockaddrIn) : sAddr order peer = htonl order (seenAddress order peer.port) := by
  cases order with
  | big =>
      rw [htonl_big]
      rfl
  | little =>
      obtain ⟨h₃, h₂, h₁, h₀⟩ := octet_word 2 0 (peer.port.extractLsb' 8 8) (peer.port.extractLsb' 0 8)
      rw [htonl, seenAddress, h₃, h₂, h₁, h₀]
      rfl

/-- **Who is refused**: whose family and port are an address the test finds. -/
theorem closes_iff (peer : SockaddrIn) : Closes order rules peer ↔ Found order rules (seenAddress order peer.port) := by
  have hany : (rules.map (DenyIp.entry order)).any (mkSecurityIpTest order (sAddr order peer)) = true ↔
      Found order rules (seenAddress order peer.port) := by
    rw [List.any_map, List.any_eq_true, sAddr_eq]
    exact exists_congr fun rule => and_congr_right fun _ => mkSecurityIpTest_entry rule
  rw [← hany, Closes, mkpStage10]
  by_cases hfound : (rules.map (DenyIp.entry order)).any (mkSecurityIpTest order (sAddr order peer)) = true
  · have hcheck : mkSecurityCheckIp order (rules.map (DenyIp.entry order)) (some peer) = -1 := if_pos hfound
    rw [hcheck]
    exact iff_of_true rfl hfound
  · have hcheck : mkSecurityCheckIp order (rules.map (DenyIp.entry order)) (some peer) = 0 := if_neg hfound
    rw [hcheck]
    exact iff_of_false (by decide) hfound

/-- The family fills the first half of the address, and the port may be any other half. -/
theorem seenAddress_iff {y : BitVec 32} :
    (∃ port, seenAddress order port = y) ↔ y.toNat / 2 ^ 16 = familyHalf order := by
  have hhalves : ∀ port : BitVec 16, (seenAddress order port).toNat = familyHalf order * 2 ^ 16 + port.toNat := by
    intro port
    have hport := port.isLt
    have hhigh : (port.extractLsb' 8 8).toNat = port.toNat / 2 ^ 8 := by
      rw [BitVec.extractLsb'_toNat, Nat.shiftRight_eq_div_pow]
      omega
    have hlow : (port.extractLsb' 0 8).toNat = port.toNat % 2 ^ 8 := by
      rw [BitVec.extractLsb'_toNat, Nat.shiftRight_zero]
    have htwo : (2 : BitVec 8).toNat = 2 := rfl
    have hzero : (0 : BitVec 8).toNat = 0 := rfl
    cases order
    all_goals
      rw [seenAddress, word_toNat, hhigh, hlow, familyHalf, htwo, hzero]
      omega
  constructor
  · rintro ⟨port, rfl⟩
    have := port.isLt
    rw [hhalves]
    omega
  · intro hy
    refine ⟨BitVec.ofNat 16 y.toNat, BitVec.eq_of_toNat_eq ?_⟩
    rw [hhalves, BitVec.toNat_ofNat, ← hy]
    omega

/-- What holds for every port holds for the addresses of the family. -/
theorem forall_seenAddress {P : BitVec 32 → Prop} :
    (∀ port, P (seenAddress order port)) ↔ ∀ y : BitVec 32, y.toNat / 2 ^ 16 = familyHalf order → P y := by
  constructor
  · intro h y hy
    obtain ⟨port, rfl⟩ := seenAddress_iff.mpr hy
    exact h port
  · exact fun h port => h _ (seenAddress_iff.mp ⟨port, rfl⟩)

/-- No rule has the address or is found to have one of the family, said of the rules one by one. -/
theorem not_denied_iff (x : BitVec 32) :
    (¬ Denied rules x ∧ ∀ port, ¬ Found order rules (seenAddress order port)) ↔
      ∀ rule ∈ rules, ¬ rule.Matches x ∧
        ∀ y : BitVec 32, y.toNat / 2 ^ 16 = familyHalf order → ¬ rule.Finds order y := by
  rw [forall_seenAddress (P := fun y => ¬ Found order rules y)]
  constructor
  · rintro ⟨hdenied, hfound⟩ rule hmem
    exact ⟨fun hmatch => hdenied ⟨rule, hmem, hmatch⟩, fun y hy hfinds => hfound y hy ⟨rule, hmem, hfinds⟩⟩
  · intro h
    refine ⟨?_, ?_⟩
    · rintro ⟨rule, hmem, hmatch⟩
      exact (h rule hmem).1 hmatch
    · rintro y hy ⟨rule, hmem, hfinds⟩
      exact (h rule hmem).2 y hy hfinds

/-- **Refusal.**  A peer is refused from whatever port exactly as the rules say, where a rule
has it and the rules are found to have every address of the family between them, or no rule
has it or is found to have one of those. -/
theorem closes_denied_iff (x : BitVec 32) :
    (∀ port, Closes order rules ⟨port, x⟩ ↔ Denied rules x) ↔
      ((∃ rule ∈ rules, rule.Matches x) ∧
        ∀ y : BitVec 32, y.toNat / 2 ^ 16 = familyHalf order → ∃ rule ∈ rules, rule.Finds order y) ∨
      ∀ rule ∈ rules, ¬ rule.Matches x ∧
        ∀ y : BitVec 32, y.toNat / 2 ^ 16 = familyHalf order → ¬ rule.Finds order y := by
  have hall := @forall_seenAddress order (Found order rules)
  unfold Found at hall
  rw [← not_denied_iff, ← hall]
  simp only [closes_iff]
  by_cases hdenied : Denied rules x
  · simp [hdenied, show ∃ rule ∈ rules, rule.Matches x from hdenied, Found]
  · simp [hdenied, show ¬ ∃ rule ∈ rules, rule.Matches x from hdenied]

end

/-- A peer with the address of a rule is not refused. -/
theorem not_closes_address : ∃ order rules x port,
    Denied rules x ∧ ¬ Closes order rules ⟨port, x⟩ := by
  refine ⟨.little, [.address 0x0a000001#32], 0x0a000001#32, 40000#16, ⟨_, List.mem_singleton_self _, rfl⟩, ?_⟩
  unfold Closes
  decide

end Monkey.Mandril
