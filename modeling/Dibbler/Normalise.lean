import Dibbler.Lines

/-! What a snapshot load gives back. `normalise` is the manager a load rebuilds from a dump:
less the leases with a zero timestamp or lifetime or that a hook rejects, the assignments and
clients left empty, and with the fields the snapshot does not carry reset (the states and
timestamps of the assignments, the FQDN data of a PD, the SPI of a client). `Dumpable` collects
what the reader needs of a manager to give it back: lines that `fgets` returns whole, and names
and numbers that the reader's searches and `atoi` return as written. -/

namespace Dibbler

/-- Whether a lease survives a reload: a nonzero timestamp and lifetimes, and an address the
hook accepts. -/
def AddrAddr.reloads (check : IPv6Addr → Bool) (a : AddrAddr) : Bool :=
  a.timestamp != 0 && a.pref != 0 && a.valid != 0 && check a.addr

/-- The bound below which the reader gives back a lease's timestamp and lifetimes:
`parseAddrAddr` keeps `atoi`'s `int` as `uint32_t`, `parseAddrPrefix` sign-extends it. -/
def AssignmentKind.lifetimeBound : AssignmentKind → Nat
  | .pd => 2 ^ 31
  | _ => 2 ^ 32

/-- The hook the reader asks about a lease of an assignment of this kind. -/
def LoadEnv.verify (env : LoadEnv) : AssignmentKind → IPv6Addr → Bool
  | .pd => env.verifyPrefix
  | _ => env.verifyAddr

/-- An assignment as the reader rebuilds it: a PD comes back in state `confirm-me` without its
FQDN data, which the writer does not print, an IA in state `not-configured`, both stamped with
the load time and holding the leases that survive. -/
def AddrIA.normalise (env : LoadEnv) (kind : AssignmentKind) (ia : AddrIA) : AddrIA :=
  { ia with
    fqdn := if kind = .pd then none else ia.fqdn
    fqdnDnsServer := if kind = .pd then none else ia.fqdnDnsServer
    state := if kind = .pd then .confirmMe else .notConfigured
    timestamp := env.now
    leases := ia.leases.filter (·.reloads (env.verify kind)) }

/-- A client as the reader rebuilds it: SPI 0, no TA, and the assignments that keep a lease. -/
def AddrClient.normalise (env : LoadEnv) (c : AddrClient) : AddrClient :=
  { c with
    spi := 0
    ia := (c.ia.map (·.normalise env .ia)).filter (0 < ·.leases.length)
    ta := []
    pd := (c.pd.map (·.normalise env .pd)).filter (0 < ·.leases.length) }

/-- The manager a load rebuilds from a dump of `m`: the clients that keep an assignment, and
the replay counter. -/
def AddrMgr.normalise (env : LoadEnv) (m : AddrMgr) : AddrMgr :=
  { clients := (m.clients.map (·.normalise env)).filter (0 < ·.count)
    replayDetectionValue := m.replayDetectionValue
    deleteEmptyClient := true }

/-- A name the reader gives back: no quote, which ends it, no `<`, newline or NUL, and not the
word `unicast`, which the reader searches for on the whole line. -/
def NameFits (name : List Char) : Prop :=
  '"' ∉ name ∧ Inline name ∧ findSub "unicast".toList name = none

/-- What the reader needs of an assignment to give it back: a fitting interface name, T1, T2
and IAID below `2^31` (`atoi` into an `int`, then sign-extended), FQDN names without `<`,
lease numbers below the kind's bound, and a unicast only on an IA that keeps a lease (a PD's
unicast is read off the line's first `=`; an IA dropped for want of leases would pass its
unicast on to the next assignment). -/
structure AddrIA.Dumpable (env : LoadEnv) (kind : AssignmentKind) (ia : AddrIA) : Prop where
  name : NameFits ia.ifacename
  t1 : ia.t1.toNat < 2 ^ 31
  t2 : ia.t2.toNat < 2 ^ 31
  iaid : ia.iaid.toNat < 2 ^ 31
  fqdn : ∀ f ∈ ia.fqdn, Inline f.name
  leases : ∀ a ∈ ia.leases, a.timestamp.toNat < kind.lifetimeBound ∧
    a.pref.toNat < kind.lifetimeBound ∧ a.valid.toNat < kind.lifetimeBound
  unicast : ia.unicast ≠ none → kind = .ia ∧ 0 < (ia.leases.filter (·.reloads env.verifyAddr)).length

/-- What the reader needs of a manager to give it back: every line at most 254 bytes,
which `fgets(buf, 255, f)` returns whole, no TA, and every assignment dumpable. -/
structure AddrMgr.Dumpable (env : LoadEnv) (now : UInt32) (m : AddrMgr) : Prop where
  short : ∀ line ∈ m.lines now, byteLength line ≤ 254
  noTA : ∀ c ∈ m.clients, c.ta = []
  ia : ∀ c ∈ m.clients, ∀ ia ∈ c.ia, ia.Dumpable env .ia
  pd : ∀ c ∈ m.clients, ∀ pd ∈ c.pd, pd.Dumpable env .pd

/-- `ostream <<` prints a 64-bit number in at most 20 digits. -/
theorem length_decimal_le {x : Nat} (hx : x < 2 ^ 64) : (decimal x).length ≤ 20 := by
  unfold decimal Nat.toDigits
  exact Nat.toDigitsCore_length 10 (by norm_num) (x + 1) x 20 (by omega) (by norm_num)

/-- A header line of a number is short whatever the number. -/
theorem byteLength_element_decimal {t : String} (ht : byteLength (element 2 t []) ≤ 234)
    {x : Nat} (hx : x < 2 ^ 64) : byteLength (element 2 t (decimal x)) ≤ 254 := by
  have := length_decimal_le hx
  rw [byteLength_element, byteLength_decimal]
  omega

/-- The lines a dump writes around the clients are short whatever the time and the counter,
so a dump's lines are short when its clients' lines are. -/
theorem AddrMgr.short_lines_iff (m : AddrMgr) (now : UInt32) :
    (∀ line ∈ m.lines now, byteLength line ≤ 254) ↔
      ∀ c ∈ m.clients, ∀ line ∈ c.lines, byteLength line ≤ 254 := by
  simp only [AddrMgr.lines, List.forall_mem_cons, List.forall_mem_append, List.forall_mem_flatMap,
    List.forall_mem_nil, and_true]
  exact ⟨fun h => h.2.2.2.1, fun h => ⟨by decide,
    byteLength_element_decimal (by decide) (by have : now.toNat < 2 ^ 32 := now.val.isLt; omega),
    byteLength_element_decimal (by decide) m.replayDetectionValue.val.isLt, h, by decide⟩⟩

instance decNameFits (name : List Char) : Decidable (NameFits name) :=
  inferInstanceAs (Decidable (_ ∧ _ ∧ _))

instance AddrIA.decDumpable (env : LoadEnv) (kind : AssignmentKind) (ia : AddrIA) :
    Decidable (ia.Dumpable env kind) :=
  decidable_of_iff (NameFits ia.ifacename ∧ ia.t1.toNat < 2 ^ 31 ∧ ia.t2.toNat < 2 ^ 31 ∧
      ia.iaid.toNat < 2 ^ 31 ∧ (∀ f ∈ ia.fqdn, Inline f.name) ∧
      (∀ a ∈ ia.leases, a.timestamp.toNat < kind.lifetimeBound ∧
        a.pref.toNat < kind.lifetimeBound ∧ a.valid.toNat < kind.lifetimeBound) ∧
      (ia.unicast ≠ none → kind = .ia ∧
        0 < (ia.leases.filter (·.reloads env.verifyAddr)).length))
    ⟨fun ⟨a, b, c, d, e, f, g⟩ => ⟨a, b, c, d, e, f, g⟩,
      fun h => ⟨h.name, h.t1, h.t2, h.iaid, h.fqdn, h.leases, h.unicast⟩⟩

instance AddrMgr.decDumpable (env : LoadEnv) (now : UInt32) (m : AddrMgr) :
    Decidable (m.Dumpable env now) :=
  decidable_of_iff ((∀ line ∈ m.lines now, byteLength line ≤ 254) ∧ (∀ c ∈ m.clients, c.ta = []) ∧
      (∀ c ∈ m.clients, ∀ ia ∈ c.ia, ia.Dumpable env .ia) ∧
      (∀ c ∈ m.clients, ∀ pd ∈ c.pd, pd.Dumpable env .pd))
    ⟨fun ⟨a, b, c, d⟩ => ⟨a, b, c, d⟩, fun h => ⟨h.short, h.noTA, h.ia, h.pd⟩⟩

end Dibbler
