import Dibbler.Entities

/-! The `TAddrMgr` mutation API and queries of `src/AddrMgr/AddrMgr.cpp`: client lookup,
`delClient`, the two variants of `addPrefix` and `updatePrefix`, `delPrefix`,
`prefixIsFree`, `updateInterfacesInfo` and the replay-detection counter.

A `SPtr<TAddrClient>` handle passed to the client variants is the client's position in
`ClntsLst` (`none` for a null pointer; a position past the end is no client either).
`time(NULL)` is the argument `now`. Logging is not modelled. A DUID argument is never null:
every function dereferences it. `delPrefix` dereferences its prefix on its first line, so
its prefix is never null either; `updatePrefix` (DUID variant) dereferences the prefix only
when the client is missing, and a null prefix there is undefined behaviour (`none`). -/

namespace Dibbler

namespace AddrClient

/-- The body of `TAddrMgr::addPrefix(SPtr<TAddrClient>, ...)` after its null checks, on the
client it was handed: find the PD by IAID or append a fresh `configured` one, set its T1 and
T2, refuse a prefix it already holds, else append the prefix and set the PD's DUID. -/
def addPrefix (client : AddrClient) (duid : Duid) (addr : Option IPv6Addr) (ifname : List Char)
    (ifindex : BitVec 32) (iaid t1 t2 : UInt64) (prefixAddr : IPv6Addr) (pref valid : UInt64)
    (length : BitVec 32) (now : UInt64) : Bool × AddrClient :=
  let (j, pd, client) : Nat × AddrIA × AddrClient :=
    match firstMatch (·.iaid == iaid) client.pd with
    | some (j, pd) => (j, pd, client)
    | none =>
      let pd := { AddrIA.create ifname ifindex addr duid t1 t2 iaid now with state := .configured }
      (client.pd.length, pd, client.addPD pd)
  let pd := { pd with t1 := t1, t2 := t2 }
  match firstMatch (·.addr == prefixAddr) pd.leases with
  | some _ => (false, client.setPD j pd)
  | none => (true, client.setPD j { pd.addPrefix prefixAddr pref valid length now with duid := duid })

/-- The body of `TAddrMgr::updatePrefix(SPtr<TAddrClient>, ...)` after its null checks: find
the PD, refresh its timestamp and set T1 and T2, then find the prefix and refresh its
timestamp and lifetimes. The source assigns `pref` to the valid lifetime; `valid` is unused. -/
def updatePrefix (client : AddrClient) (iaid t1 t2 : UInt64) (prefixAddr : IPv6Addr)
    (pref valid : UInt64) (now : UInt64) : Bool × AddrClient :=
  match firstMatch (·.iaid == iaid) client.pd with
  | none => (false, client)
  | some (j, pd) =>
    let pd := { pd with timestamp := now, t1 := t1, t2 := t2 }
    match firstMatch (·.addr == prefixAddr) pd.leases with
    | none => (false, client.setPD j pd)
    | some (k, lease) =>
      let lease := { lease with timestamp := now, pref := pref, valid := pref }
      (true, client.setPD j { pd with leases := pd.leases.set k lease })

section Spec

variable {c : AddrClient} {duid : Duid} {addr : Option IPv6Addr} {ifname : List Char}
  {ifindex : BitVec 32} {iaid t1 t2 : UInt64} {p : IPv6Addr} {pref valid : UInt64}
  {length : BitVec 32} {now : UInt64} {j : Nat} {pd : AddrIA}

theorem addPrefix_of_found (h : firstMatch (·.iaid == iaid) c.pd = some (j, pd)) :
    c.addPrefix duid addr ifname ifindex iaid t1 t2 p pref valid length now =
      match firstMatch (·.addr == p) pd.leases with
      | some _ => (false, c.setPD j { pd with t1 := t1, t2 := t2 })
      | none => (true, c.setPD j
          { ({ pd with t1 := t1, t2 := t2 } : AddrIA).addPrefix p pref valid length now with
            duid := duid }) := by
  unfold AddrClient.addPrefix; rw [h]

theorem addPrefix_of_not_found (h : firstMatch (·.iaid == iaid) c.pd = none) :
    c.addPrefix duid addr ifname ifindex iaid t1 t2 p pref valid length now =
      (true, c.addPD (({ AddrIA.create ifname ifindex addr duid t1 t2 iaid now with
        state := .configured } : AddrIA).addPrefix p pref valid length now)) := by
  simp [AddrClient.addPrefix, h, firstMatch, setPD, addPD, AddrIA.addPrefix, AddrIA.create]

theorem updatePrefix_of_found (h : firstMatch (·.iaid == iaid) c.pd = some (j, pd)) :
    c.updatePrefix iaid t1 t2 p pref valid now =
      match firstMatch (·.addr == p) pd.leases with
      | none => (false, c.setPD j { pd with timestamp := now, t1 := t1, t2 := t2 })
      | some (k, lease) =>
        let lease := { lease with timestamp := now, pref := pref, valid := pref }
        (true, c.setPD j
          { pd with timestamp := now, t1 := t1, t2 := t2, leases := pd.leases.set k lease }) := by
  unfold AddrClient.updatePrefix; rw [h]

theorem updatePrefix_of_not_found (h : firstMatch (·.iaid == iaid) c.pd = none) :
    c.updatePrefix iaid t1 t2 p pref valid now = (false, c) := by
  simp [AddrClient.updatePrefix, h]

@[simp] theorem addPrefix_duid :
    (c.addPrefix duid addr ifname ifindex iaid t1 t2 p pref valid length now).2.duid = c.duid := by
  cases h : firstMatch (·.iaid == iaid) c.pd with
  | none => simp [addPrefix_of_not_found h]
  | some r => rw [addPrefix_of_found h]; split <;> rfl

@[simp] theorem addPrefix_ia :
    (c.addPrefix duid addr ifname ifindex iaid t1 t2 p pref valid length now).2.ia = c.ia := by
  cases h : firstMatch (·.iaid == iaid) c.pd with
  | none => simp [addPrefix_of_not_found h]
  | some r => rw [addPrefix_of_found h]; split <;> rfl

@[simp] theorem addPrefix_ta :
    (c.addPrefix duid addr ifname ifindex iaid t1 t2 p pref valid length now).2.ta = c.ta := by
  cases h : firstMatch (·.iaid == iaid) c.pd with
  | none => simp [addPrefix_of_not_found h]
  | some r => rw [addPrefix_of_found h]; split <;> rfl

@[simp] theorem updatePrefix_duid : (c.updatePrefix iaid t1 t2 p pref valid now).2.duid = c.duid := by
  cases h : firstMatch (·.iaid == iaid) c.pd with
  | none => simp [updatePrefix_of_not_found h]
  | some r => rw [updatePrefix_of_found h]; split <;> rfl

@[simp] theorem updatePrefix_ia : (c.updatePrefix iaid t1 t2 p pref valid now).2.ia = c.ia := by
  cases h : firstMatch (·.iaid == iaid) c.pd with
  | none => simp [updatePrefix_of_not_found h]
  | some r => rw [updatePrefix_of_found h]; split <;> rfl

end Spec

end AddrClient

/-- `updateInterfacesInfoIA`: an assignment without an interface name (a pre-0.8.4 record)
takes the name of its index; otherwise its name must still exist, and its index follows
the name's current index. -/
def updateInterfacesInfoIA (nameToIndex : List Char → Option (BitVec 32))
    (indexToName : BitVec 32 → Option (List Char)) (ia : AddrIA) : Bool × AddrIA :=
  if ia.ifacename.length = 0 then
    match indexToName ia.ifindex with
    | none => (false, ia)
    | some name => (true, { ia with ifacename := name })
  else
    match nameToIndex ia.ifacename with
    | none => (false, ia)
    | some index => (true, if ia.ifindex ≠ index then { ia with ifindex := index } else ia)

/-- One `while (ia = getIA()) if (!f(ia)) return false;` loop: updates made before a
failure stay in place. -/
def updateEach {α : Type} (f : α → Bool × α) : List α → Bool × List α
  | [] => (true, [])
  | a :: rest =>
    match f a with
    | (false, a') => (false, a' :: rest)
    | (true, a') => let r := updateEach f rest; (r.1, a' :: r.2)

/-- The three loops of `updateInterfacesInfo` over one client: IAs, then TAs, then PDs. -/
def AddrClient.updateInterfacesInfo (f : AddrIA → Bool × AddrIA) (client : AddrClient) :
    Bool × AddrClient :=
  match updateEach f client.ia with
  | (false, ia) => (false, { client with ia })
  | (true, ia) =>
    match updateEach f client.ta with
    | (false, ta) => (false, { client with ia, ta })
    | (true, ta) =>
      let pd := updateEach f client.pd
      (pd.1, { client with ia, ta, pd := pd.2 })

namespace AddrMgr

def empty : AddrMgr := { clients := [], replayDetectionValue := 0, deleteEmptyClient := true }

def addClient (m : AddrMgr) (client : AddrClient) : AddrMgr :=
  { m with clients := m.clients ++ [client] }

def setClient (m : AddrMgr) (i : Nat) (client : AddrClient) : AddrMgr :=
  { m with clients := m.clients.set i client }

@[simp] theorem setClient_clients (m : AddrMgr) (i : Nat) (client : AddrClient) :
    (m.setClient i client).clients = m.clients.set i client := rfl

@[simp] theorem addClient_clients (m : AddrMgr) (client : AddrClient) :
    (m.addClient client).clients = m.clients ++ [client] := rfl

def getClient (m : AddrMgr) (duid : Duid) : Option AddrClient :=
  (firstMatch (·.duid == duid) m.clients).map Prod.snd

def getClientBySPI (m : AddrMgr) (spi : UInt32) : Option AddrClient :=
  (firstMatch (·.spi == spi) m.clients).map Prod.snd

/-- `TAddrMgr::getClient(SPtr<TIPv6Addr>)`: the first client one of whose IAs leases the
address (`TAddrIA::getAddr`, modelled from the spec as a search of the IA's leases). -/
def getClientByAddr (m : AddrMgr) (leasedAddr : IPv6Addr) : Option AddrClient :=
  (firstMatch (fun c => c.ia.any fun ia => ia.leases.any (·.addr == leasedAddr)) m.clients).map
    Prod.snd

def delClient (m : AddrMgr) (duid : Duid) : Bool × AddrMgr :=
  match firstMatch (·.duid == duid) m.clients with
  | none => (false, m)
  | some (i, _) => (true, { m with clients := m.clients.eraseIdx i })

def addPrefixClient (m : AddrMgr) (client : Option Nat) (duid : Duid) (addr : Option IPv6Addr)
    (ifname : List Char) (ifindex : BitVec 32) (iaid t1 t2 : UInt64)
    (prefixAddr : Option IPv6Addr) (pref valid : UInt64) (length : BitVec 32) (now : UInt64) :
    Bool × AddrMgr :=
  match prefixAddr with
  | none => (false, m)
  | some prefixAddr =>
    match client with
    | none => (false, m)
    | some i =>
      match m.clients[i]? with
      | none => (false, m)
      | some c =>
        let r := c.addPrefix duid addr ifname ifindex iaid t1 t2 prefixAddr pref valid length now
        (r.1, m.setClient i r.2)

/-- `TAddrMgr::addPrefix(SPtr<TDUID> clntDuid, ...)`: find the client, appending a fresh one
when there is none, and hand it to the client variant. -/
def addPrefix (m : AddrMgr) (clntDuid : Duid) (clntAddr : Option IPv6Addr) (ifname : List Char)
    (ifindex : BitVec 32) (iaid t1 t2 : UInt64) (prefixAddr : Option IPv6Addr)
    (pref valid : UInt64) (length : BitVec 32) (now : UInt64) : Bool × AddrMgr :=
  match firstMatch (·.duid == clntDuid) m.clients with
  | some (i, _) =>
    m.addPrefixClient (some i) clntDuid clntAddr ifname ifindex iaid t1 t2 prefixAddr pref valid
      length now
  | none =>
    (m.addClient (.create clntDuid)).addPrefixClient (some m.clients.length) clntDuid clntAddr
      ifname ifindex iaid t1 t2 prefixAddr pref valid length now

section AddPrefixSpec

variable {m : AddrMgr} {duid : Duid} {addr : Option IPv6Addr} {ifname : List Char}
  {ifindex : BitVec 32} {iaid t1 t2 : UInt64} {p : IPv6Addr} {pref valid : UInt64}
  {length : BitVec 32} {now : UInt64}

theorem addPrefix_of_found {i : Nat} {c : AddrClient}
    (h : firstMatch (·.duid == duid) m.clients = some (i, c)) :
    m.addPrefix duid addr ifname ifindex iaid t1 t2 (some p) pref valid length now =
      let r := c.addPrefix duid addr ifname ifindex iaid t1 t2 p pref valid length now
      (r.1, m.setClient i r.2) := by
  simp [addPrefix, h, addPrefixClient, firstMatch_getElem? h]

theorem addPrefix_of_not_found (h : firstMatch (·.duid == duid) m.clients = none) :
    m.addPrefix duid addr ifname ifindex iaid t1 t2 (some p) pref valid length now =
      let r := (AddrClient.create duid).addPrefix duid addr ifname ifindex iaid t1 t2 p pref valid
        length now
      (r.1, m.addClient r.2) := by
  simp [addPrefix, h, addPrefixClient, addClient, setClient]

theorem addPrefixClient_elim (P : AddrMgr → Prop) (client : Option Nat)
    (prefixAddr : Option IPv6Addr) (same : P m)
    (added : ∀ i c p, client = some i → prefixAddr = some p → m.clients[i]? = some c →
      P (m.setClient i (c.addPrefix duid addr ifname ifindex iaid t1 t2 p pref valid length now).2)) :
    P (m.addPrefixClient client duid addr ifname ifindex iaid t1 t2 prefixAddr pref valid length
      now).2 := by
  unfold addPrefixClient
  split
  · exact same
  · split
    · exact same
    · split
      · exact same
      · next c hc => exact added _ c _ rfl rfl hc

end AddPrefixSpec

def updatePrefixClient (m : AddrMgr) (client : Option Nat) (iaid t1 t2 : UInt64)
    (prefixAddr : Option IPv6Addr) (pref valid : UInt64) (now : UInt64) : Bool × AddrMgr :=
  match prefixAddr with
  | none => (false, m)
  | some prefixAddr =>
    match client with
    | none => (false, m)
    | some i =>
      match m.clients[i]? with
      | none => (false, m)
      | some c =>
        let r := c.updatePrefix iaid t1 t2 prefixAddr pref valid now
        (r.1, m.setClient i r.2)

/-- `TAddrMgr::updatePrefix(SPtr<TDUID> duid, ...)`: a missing client is reported with
`prefix->getPlain()`, which a null prefix turns into undefined behaviour (`none`). -/
def updatePrefix (m : AddrMgr) (duid : Duid) (iaid t1 t2 : UInt64)
    (prefixAddr : Option IPv6Addr) (pref valid : UInt64) (now : UInt64) :
    Option (Bool × AddrMgr) :=
  match firstMatch (·.duid == duid) m.clients with
  | none => prefixAddr.map fun _ => (false, m)
  | some (i, _) => some (m.updatePrefixClient (some i) iaid t1 t2 prefixAddr pref valid now)

section UpdatePrefixSpec

variable {m : AddrMgr} {duid : Duid} {iaid t1 t2 : UInt64} {p : IPv6Addr} {pref valid now : UInt64}

theorem updatePrefixClient_elim (P : AddrMgr → Prop) (client : Option Nat)
    (prefixAddr : Option IPv6Addr) (same : P m)
    (updated : ∀ i c p, client = some i → prefixAddr = some p → m.clients[i]? = some c →
      P (m.setClient i (c.updatePrefix iaid t1 t2 p pref valid now).2)) :
    P (m.updatePrefixClient client iaid t1 t2 prefixAddr pref valid now).2 := by
  unfold updatePrefixClient
  split
  · exact same
  · split
    · exact same
    · split
      · exact same
      · next c hc => exact updated _ c _ rfl rfl hc

theorem updatePrefix_some_of_found {i : Nat} {c : AddrClient}
    (h : firstMatch (·.duid == duid) m.clients = some (i, c)) :
    m.updatePrefix duid iaid t1 t2 (some p) pref valid now =
      some ((c.updatePrefix iaid t1 t2 p pref valid now).1,
        m.setClient i (c.updatePrefix iaid t1 t2 p pref valid now).2) := by
  simp [updatePrefix, h, updatePrefixClient, firstMatch_getElem? h]

theorem updatePrefix_some_of_not_found (h : firstMatch (·.duid == duid) m.clients = none) :
    m.updatePrefix duid iaid t1 t2 (some p) pref valid now = some (false, m) := by
  simp [updatePrefix, h]

end UpdatePrefixSpec

/-- `TAddrMgr::delPrefix`: remove the lease; a PD left empty goes, and a client left without
IA, TA and PD goes when `DeleteEmptyClient` is set. -/
def delPrefix (m : AddrMgr) (clntDuid : Duid) (iaid : UInt64) (prefixAddr : IPv6Addr) :
    Bool × AddrMgr :=
  match firstMatch (·.duid == clntDuid) m.clients with
  | none => (false, m)
  | some (i, client) =>
    match firstMatch (·.iaid == iaid) client.pd with
    | none => (false, m)
    | some (j, pd) =>
      match firstMatch (·.addr == prefixAddr) pd.leases with
      | none => (false, m)
      | some _ =>
        let pd := pd.delPrefix prefixAddr
        let client := client.setPD j pd
        let client := if pd.leases.length = 0 then client.delPD iaid else client
        let m := m.setClient i client
        (true, if client.ia.length = 0 ∧ client.ta.length = 0 ∧ client.pd.length = 0 ∧
            m.deleteEmptyClient then (m.delClient clntDuid).2 else m)

/-- What `delPrefix` can do: fail and change nothing when the client, its PD or the prefix is
missing, or remove the prefix and write back `client'`, the client without it, deleting the
client when that leaves it empty. -/
theorem delPrefix_cases (m : AddrMgr) (duid : Duid) (iaid : UInt64) (p : IPv6Addr) :
    (m.delPrefix duid iaid p = (false, m) ∧
      ∀ i c, firstMatch (·.duid == duid) m.clients = some (i, c) →
        ∀ j pd, firstMatch (·.iaid == iaid) c.pd = some (j, pd) →
          firstMatch (·.addr == p) pd.leases = none) ∨
    ∃ i c j pd lease client', firstMatch (·.duid == duid) m.clients = some (i, c) ∧
      firstMatch (·.iaid == iaid) c.pd = some (j, pd) ∧
      firstMatch (·.addr == p) pd.leases = some lease ∧
      client' = (if (pd.delPrefix p).leases.length = 0 then (c.setPD j (pd.delPrefix p)).delPD iaid
        else c.setPD j (pd.delPrefix p)) ∧
      m.delPrefix duid iaid p = (true,
        if client'.ia.length = 0 ∧ client'.ta.length = 0 ∧ client'.pd.length = 0 ∧
          m.deleteEmptyClient then ((m.setClient i client').delClient duid).2
        else m.setClient i client') := by
  unfold delPrefix
  split
  · next missing => exact .inl ⟨rfl, fun i c h => by simp [missing] at h⟩
  · next i c hi =>
    split
    · next missing =>
      refine .inl ⟨rfl, fun i' c' hi' j pd hj => ?_⟩
      obtain ⟨-, rfl⟩ : i = i' ∧ c = c' := by simpa [hi] using hi'
      simp [missing] at hj
    · next j pd hj =>
      split
      · next missing =>
        refine .inl ⟨rfl, fun i' c' hi' j' pd' hj' => ?_⟩
        obtain ⟨-, rfl⟩ : i = i' ∧ c = c' := by simpa [hi] using hi'
        obtain ⟨-, rfl⟩ : j = j' ∧ pd = pd' := by simpa [hj] using hj'
        exact missing
      · next lease hp =>
        exact .inr ⟨i, c, j, pd, lease, _, hi, hj, hp, rfl, rfl⟩

theorem delPrefix_of_false {m : AddrMgr} {duid : Duid} {iaid : UInt64} {p : IPv6Addr}
    (h : (m.delPrefix duid iaid p).1 = false) :
    (m.delPrefix duid iaid p).2 = m := by
  rcases delPrefix_cases m duid iaid p with ⟨hf, -⟩ | ⟨_, _, _, _, _, _, -, -, -, -, ht⟩
  · rw [hf]
  · simp [ht] at h

def prefixIsFree (m : AddrMgr) (x : IPv6Addr) : Bool :=
  !m.clients.any fun c => c.pd.any fun pd => pd.leases.any (·.addr == x)

/-- `TAddrMgr::updateInterfacesInfo`: every IA, TA and PD of every client in turn, stopping
at the first one that cannot be reconciled. -/
def updateInterfacesInfo (m : AddrMgr) (nameToIndex : List Char → Option (BitVec 32))
    (indexToName : BitVec 32 → Option (List Char)) : Bool × AddrMgr :=
  let r := updateEach (AddrClient.updateInterfacesInfo
    (updateInterfacesInfoIA nameToIndex indexToName)) m.clients
  (r.1, { m with clients := r.2 })

def getNextReplayDetectionValue (m : AddrMgr) : UInt64 × AddrMgr :=
  (m.replayDetectionValue + 1, { m with replayDetectionValue := m.replayDetectionValue + 1 })

end AddrMgr

inductive Call where
  | addPrefix (duid : Duid) (addr : Option IPv6Addr) (ifname : List Char) (ifindex : BitVec 32)
      (iaid t1 t2 : UInt64) (prefixAddr : Option IPv6Addr) (pref valid : UInt64)
      (length : BitVec 32)
  | addPrefixClient (client : Option Nat) (duid : Duid) (addr : Option IPv6Addr)
      (ifname : List Char) (ifindex : BitVec 32) (iaid t1 t2 : UInt64)
      (prefixAddr : Option IPv6Addr) (pref valid : UInt64) (length : BitVec 32)
  | updatePrefix (duid : Duid) (iaid t1 t2 : UInt64) (prefixAddr : Option IPv6Addr)
      (pref valid : UInt64)
  | updatePrefixClient (client : Option Nat) (iaid t1 t2 : UInt64)
      (prefixAddr : Option IPv6Addr) (pref valid : UInt64)
  | delPrefix (duid : Duid) (iaid : UInt64) (prefixAddr : IPv6Addr)
  | delClient (duid : Duid)
  | updateInterfacesInfo (nameToIndex : List Char → Option (BitVec 32))
      (indexToName : BitVec 32 → Option (List Char))

namespace AddrMgr

/-- The store after a call made at time `now`, whatever the call returns; `none` when the
call has undefined behaviour. -/
def call (m : AddrMgr) (now : UInt64) : Call → Option AddrMgr
  | .addPrefix duid addr ifname ifindex iaid t1 t2 p pref valid length =>
    some (m.addPrefix duid addr ifname ifindex iaid t1 t2 p pref valid length now).2
  | .addPrefixClient client duid addr ifname ifindex iaid t1 t2 p pref valid length =>
    some (m.addPrefixClient client duid addr ifname ifindex iaid t1 t2 p pref valid length now).2
  | .updatePrefix duid iaid t1 t2 p pref valid =>
    (m.updatePrefix duid iaid t1 t2 p pref valid now).map Prod.snd
  | .updatePrefixClient client iaid t1 t2 p pref valid =>
    some (m.updatePrefixClient client iaid t1 t2 p pref valid now).2
  | .delPrefix duid iaid p => some (m.delPrefix duid iaid p).2
  | .delClient duid => some (m.delClient duid).2
  | .updateInterfacesInfo nameToIndex indexToName =>
    some (m.updateInterfacesInfo nameToIndex indexToName).2

inductive Reachable : AddrMgr → Prop
  | empty : Reachable empty
  | call {m m' : AddrMgr} (now : UInt64) (c : Call) :
      Reachable m → m.call now c = some m' → Reachable m'

end AddrMgr

end Dibbler
