import Mathlib.Data.List.Nodup

/-! Entities of Dibbler's address database (`src/AddrMgr/AddrMgr.cpp`): leases, assignments
(IA, TA and PD share `TAddrIA`), clients and the manager. `TAddrMgr` holds them by smart
pointer and mutates them in place through list cursors; here a cursor stop is a position
in the list and a mutation writes the element back at that position.

The member functions of `TAddrIA` and `TAddrClient` are not under `src/`. The few that the
manager calls are modelled from the spec: lists keep insertion order and a deletion removes
the first match. Field widths follow the values the manager hands over on an LP64 target:
`unsigned long` (`UInt64`) for IAIDs, timers, lifetimes and timestamps, `int` (`BitVec 32`)
for interface indices and prefix lengths. Fields that no modelled function reads (the
tentative flags, the `IsDone` flag, the snapshot path) are left out. -/

namespace Dibbler

/-- An IPv6 address (`TIPv6Addr`): eight 16-bit groups, equal by content. -/
structure IPv6Addr where
  groups : List UInt16
  length_groups : groups.length = 8
  deriving DecidableEq

/-- A DUID (`TDUID`): an opaque byte string, equal by content. -/
structure Duid where
  bytes : List UInt8
  deriving DecidableEq

/-- An FQDN record (`TFQDN`): owner DUID, name and used flag. -/
structure Fqdn where
  duid : Duid
  name : List Char
  used : Bool
  deriving DecidableEq

/-- Lifecycle state of an assignment (spec §4.4). -/
inductive IAState where
  | notConfigured
  | inProgress
  | configured
  | confirmMe
  | expired
  deriving DecidableEq, Repr

/-- A lease: `TAddrAddr`, and `TAddrPrefix`, which adds nothing the manager reads. -/
structure AddrAddr where
  addr : IPv6Addr
  pref : UInt64
  valid : UInt64
  length : BitVec 32
  timestamp : UInt64
  deriving DecidableEq

/-- An assignment (`TAddrIA`); whether it is an IA, TA or PD is the list that holds it. -/
structure AddrIA where
  iaid : UInt64
  t1 : UInt64
  t2 : UInt64
  ifacename : List Char
  ifindex : BitVec 32
  unicast : Option IPv6Addr
  duid : Duid
  fqdn : Option Fqdn
  fqdnDnsServer : Option IPv6Addr
  state : IAState
  timestamp : UInt64
  leases : List AddrAddr
  deriving DecidableEq

/-- A client record (`TAddrClient`). -/
structure AddrClient where
  duid : Duid
  spi : UInt32
  reconfKey : List UInt8
  ia : List AddrIA
  ta : List AddrIA
  pd : List AddrIA
  deriving DecidableEq

/-- The manager (`TAddrMgr`): `ClntsLst`, `ReplayDetectionValue_`, `DeleteEmptyClient`. -/
structure AddrMgr where
  clients : List AddrClient
  replayDetectionValue : UInt64
  deleteEmptyClient : Bool
  deriving DecidableEq

/-- The cursor loop `first(); while (x = get()) if (p x) break;` over a `TContainer`:
the position and the element it stops on. -/
def firstMatch {α : Type} (p : α → Bool) : List α → Option (Nat × α)
  | [] => none
  | a :: l => if p a then some (0, a) else (firstMatch p l).map fun r => (r.1 + 1, r.2)

section FirstMatch

variable {α : Type} {p : α → Bool}

theorem firstMatch_eq_none {l : List α} : firstMatch p l = none ↔ ∀ a ∈ l, p a = false := by
  induction l with
  | nil => simp [firstMatch]
  | cons a l ih => by_cases h : p a <;> simp [firstMatch, h, ih]

theorem firstMatch_spec {l : List α} {i : Nat} {a : α} (h : firstMatch p l = some (i, a)) :
    l[i]? = some a ∧ p a = true ∧ ∀ j < i, ∀ b, l[j]? = some b → p b = false := by
  induction l generalizing i with
  | nil => simp [firstMatch] at h
  | cons b l ih =>
    by_cases hb : p b
    · simp only [firstMatch, hb, if_true, Option.some.injEq, Prod.mk.injEq] at h
      obtain ⟨rfl, rfl⟩ := h
      simpa using hb
    · simp only [firstMatch, hb, Bool.false_eq_true, if_false, Option.map_eq_some',
        Prod.exists, Prod.mk.injEq] at h
      obtain ⟨k, c, hk, rfl, rfl⟩ := h
      obtain ⟨hget, hp, hbefore⟩ := ih hk
      refine ⟨by simpa using hget, hp, fun j hj d hd => ?_⟩
      cases j with
      | zero => simp_all
      | succ j => exact hbefore j (by omega) d (by simpa using hd)

theorem firstMatch_getElem? {l : List α} {i : Nat} {a : α} (h : firstMatch p l = some (i, a)) :
    l[i]? = some a :=
  (firstMatch_spec h).1

theorem firstMatch_pred {l : List α} {i : Nat} {a : α} (h : firstMatch p l = some (i, a)) :
    p a = true :=
  (firstMatch_spec h).2.1

theorem firstMatch_mem {l : List α} {i : Nat} {a : α} (h : firstMatch p l = some (i, a)) :
    a ∈ l :=
  List.getElem?_mem (firstMatch_getElem? h)

/-- `TContainer::del()` after the cursor stopped on the first match removes that match. -/
theorem firstMatch_eraseIdx {l : List α} {i : Nat} {a : α} (h : firstMatch p l = some (i, a)) :
    l.eraseIdx i = l.eraseP p := by
  induction l generalizing i with
  | nil => simp [firstMatch] at h
  | cons b l ih =>
    by_cases hb : p b
    · simp only [firstMatch, hb, if_true, Option.some.injEq, Prod.mk.injEq] at h
      obtain ⟨rfl, rfl⟩ := h
      simp [List.eraseP_cons_of_pos hb]
    · simp only [firstMatch, hb, Bool.false_eq_true, if_false, Option.map_eq_some',
        Prod.exists, Prod.mk.injEq] at h
      obtain ⟨k, c, hk, rfl, rfl⟩ := h
      simp [List.eraseP_cons_of_neg (by simpa using hb), ih hk]

/-- Writing back at the cursor position an element that still matches leaves the cursor
there. -/
theorem firstMatch_set {l : List α} {i : Nat} {a b : α} (h : firstMatch p l = some (i, b))
    (ha : p a = true) : firstMatch p (l.set i a) = some (i, a) := by
  induction l generalizing i with
  | nil => simp [firstMatch] at h
  | cons c l ih =>
    by_cases hc : p c
    · simp only [firstMatch, hc, if_true, Option.some.injEq, Prod.mk.injEq] at h
      obtain ⟨rfl, rfl⟩ := h
      simp [firstMatch, ha]
    · simp only [firstMatch, hc, Bool.false_eq_true, if_false, Option.map_eq_some',
        Prod.exists, Prod.mk.injEq] at h
      obtain ⟨k, d, hk, rfl, rfl⟩ := h
      simp [firstMatch, hc, ih hk]

/-- Under a key-uniqueness invariant, the cursor stops on an element iff it has the key. -/
theorem firstMatch_key {β : Type} [DecidableEq β] {key : α → β} {l : List α}
    (nodup : (l.map key).Nodup) (k : β) (a : α) :
    (∃ i, firstMatch (fun x => key x == k) l = some (i, a)) ↔ a ∈ l ∧ key a = k := by
  constructor
  · rintro ⟨i, h⟩
    exact ⟨firstMatch_mem h, by simpa using firstMatch_pred h⟩
  · rintro ⟨ha, rfl⟩
    cases hf : firstMatch (fun x => key x == key a) l with
    | none => simpa using firstMatch_eq_none.mp hf a ha
    | some r =>
      have hk : key r.2 = key a := by simpa using firstMatch_pred hf
      obtain rfl : r.2 = a := List.inj_on_of_nodup_map nodup (firstMatch_mem hf) ha hk
      exact ⟨r.1, rfl⟩

/-- Writing back at a cursor position an element with the same key keeps the list's keys. -/
theorem map_set_of_key {β : Type} {f : α → β} {l : List α} {i : Nat} {a b : α}
    (hb : l[i]? = some b) (h : f a = f b) : (l.set i a).map f = l.map f := by
  have hi : i < l.length := (List.getElem?_eq_some_iff.mp hb).1
  apply List.ext_getElem?
  intro k
  simp only [List.getElem?_map, List.getElem?_set, hi, if_true]
  split_ifs with hik <;> simp_all

theorem forall_mem_set {P : α → Prop} {l : List α} {i : Nat} {a : α}
    (hl : ∀ x ∈ l, P x) (ha : P a) : ∀ x ∈ l.set i a, P x := fun x hx =>
  (List.mem_or_eq_of_mem_set hx).elim (hl x) (fun h => h ▸ ha)

end FirstMatch

namespace AddrIA

/-- `TAddrIA(ifacename, ifindex, type, addr, duid, t1, t2, iaid)`: a fresh assignment
stamped `now`, with `addr` as its unicast address. Modelled from the spec: the
constructor is not under `src/`. -/
def create (ifacename : List Char) (ifindex : BitVec 32) (addr : Option IPv6Addr)
    (duid : Duid) (t1 t2 iaid now : UInt64) : AddrIA :=
  { iaid, t1, t2, ifacename, ifindex, unicast := addr, duid, fqdn := none,
    fqdnDnsServer := none, state := .notConfigured, timestamp := now, leases := [] }

/-- `TAddrIA::addPrefix(prefix, pref, valid, length)`: append a lease stamped `now`.
Modelled from the spec. -/
def addPrefix (ia : AddrIA) (prefixAddr : IPv6Addr) (pref valid : UInt64) (length : BitVec 32)
    (now : UInt64) : AddrIA :=
  { ia with leases := ia.leases ++ [{ addr := prefixAddr, pref, valid, length, timestamp := now }] }

/-- `TAddrIA::delPrefix(prefix)`: remove the first lease with this address.
Modelled from the spec. -/
def delPrefix (ia : AddrIA) (prefixAddr : IPv6Addr) : AddrIA :=
  { ia with leases := ia.leases.eraseP (·.addr == prefixAddr) }

@[simp] theorem create_leases (ifacename : List Char) (ifindex : BitVec 32)
    (addr : Option IPv6Addr) (duid : Duid) (t1 t2 iaid now : UInt64) :
    (create ifacename ifindex addr duid t1 t2 iaid now).leases = [] := rfl

@[simp] theorem create_iaid (ifacename : List Char) (ifindex : BitVec 32)
    (addr : Option IPv6Addr) (duid : Duid) (t1 t2 iaid now : UInt64) :
    (create ifacename ifindex addr duid t1 t2 iaid now).iaid = iaid := rfl

@[simp] theorem addPrefix_leases (ia : AddrIA) (prefixAddr : IPv6Addr) (pref valid : UInt64)
    (length : BitVec 32) (now : UInt64) :
    (ia.addPrefix prefixAddr pref valid length now).leases =
      ia.leases ++ [{ addr := prefixAddr, pref, valid, length, timestamp := now }] := rfl

@[simp] theorem addPrefix_iaid (ia : AddrIA) (prefixAddr : IPv6Addr) (pref valid : UInt64)
    (length : BitVec 32) (now : UInt64) : (ia.addPrefix prefixAddr pref valid length now).iaid = ia.iaid :=
  rfl

@[simp] theorem delPrefix_leases (ia : AddrIA) (prefixAddr : IPv6Addr) :
    (ia.delPrefix prefixAddr).leases = ia.leases.eraseP (·.addr == prefixAddr) := rfl

@[simp] theorem delPrefix_iaid (ia : AddrIA) (prefixAddr : IPv6Addr) :
    (ia.delPrefix prefixAddr).iaid = ia.iaid := rfl

end AddrIA

namespace AddrClient

/-- `TAddrClient(duid)`: a client with no assignments. Modelled from the spec. -/
def create (duid : Duid) : AddrClient :=
  { duid, spi := 0, reconfKey := [], ia := [], ta := [], pd := [] }

/-- `TAddrClient::addPD`: append. Modelled from the spec. -/
def addPD (client : AddrClient) (pd : AddrIA) : AddrClient :=
  { client with pd := client.pd ++ [pd] }

/-- `TAddrClient::delPD(iaid)`: remove the first PD with this IAID. Modelled from the spec. -/
def delPD (client : AddrClient) (iaid : UInt64) : AddrClient :=
  { client with pd := client.pd.eraseP (·.iaid == iaid) }

/-- Store back the PD a cursor stopped on at position `j`. -/
def setPD (client : AddrClient) (j : Nat) (pd : AddrIA) : AddrClient :=
  { client with pd := client.pd.set j pd }

@[simp] theorem create_duid (duid : Duid) : (create duid).duid = duid := rfl
@[simp] theorem create_pd (duid : Duid) : (create duid).pd = [] := rfl
@[simp] theorem create_ia (duid : Duid) : (create duid).ia = [] := rfl
@[simp] theorem create_ta (duid : Duid) : (create duid).ta = [] := rfl

@[simp] theorem addPD_duid (client : AddrClient) (pd : AddrIA) :
    (client.addPD pd).duid = client.duid := rfl
@[simp] theorem addPD_pd (client : AddrClient) (pd : AddrIA) :
    (client.addPD pd).pd = client.pd ++ [pd] := rfl
@[simp] theorem addPD_ia (client : AddrClient) (pd : AddrIA) : (client.addPD pd).ia = client.ia :=
  rfl
@[simp] theorem addPD_ta (client : AddrClient) (pd : AddrIA) : (client.addPD pd).ta = client.ta :=
  rfl

@[simp] theorem delPD_duid (client : AddrClient) (iaid : UInt64) :
    (client.delPD iaid).duid = client.duid := rfl
@[simp] theorem delPD_pd (client : AddrClient) (iaid : UInt64) :
    (client.delPD iaid).pd = client.pd.eraseP (·.iaid == iaid) := rfl
@[simp] theorem delPD_ia (client : AddrClient) (iaid : UInt64) :
    (client.delPD iaid).ia = client.ia := rfl
@[simp] theorem delPD_ta (client : AddrClient) (iaid : UInt64) :
    (client.delPD iaid).ta = client.ta := rfl

@[simp] theorem setPD_duid (client : AddrClient) (j : Nat) (pd : AddrIA) :
    (client.setPD j pd).duid = client.duid := rfl
@[simp] theorem setPD_pd (client : AddrClient) (j : Nat) (pd : AddrIA) :
    (client.setPD j pd).pd = client.pd.set j pd := rfl
@[simp] theorem setPD_ia (client : AddrClient) (j : Nat) (pd : AddrIA) :
    (client.setPD j pd).ia = client.ia := rfl
@[simp] theorem setPD_ta (client : AddrClient) (j : Nat) (pd : AddrIA) :
    (client.setPD j pd).ta = client.ta := rfl

end AddrClient

end Dibbler
