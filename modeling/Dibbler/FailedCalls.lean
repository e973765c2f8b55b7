import Dibbler.Store

/-! What a failed call of the mutation API leaves behind (spec §4.1, §7). `delPrefix` fails
before it touches the store. `addPrefix` and `updatePrefix` find the PD and set its timers
before they search for the prefix, so when that search fails the PD keeps the new T1 and T2
(and, for `updatePrefix`, a fresh timestamp). The DUID variant of `addPrefix` appends a client
for an unknown DUID before the client variant rejects a null prefix, so that failed call
leaves a client with no IA, TA or PD behind. -/

namespace Dibbler

/-- The client with `f` applied to its first PD with this IAID; the client itself when it
has none. -/
def AddrClient.modifyPD (c : AddrClient) (iaid : UInt64) (f : AddrIA → AddrIA) : AddrClient :=
  match firstMatch (·.iaid == iaid) c.pd with
  | none => c
  | some (j, pd) => c.setPD j (f pd)

/-- The store with `f` applied to that PD of the client a handle points to. -/
def AddrMgr.modifyPD (m : AddrMgr) (client : Option Nat) (iaid : UInt64)
    (f : AddrIA → AddrIA) : AddrMgr :=
  match client with
  | none => m
  | some i =>
    match m.clients[i]? with
    | none => m
    | some c => m.setClient i (c.modifyPD iaid f)

/-- The handle of the first client with this DUID, as the DUID variants find it. -/
def AddrMgr.clientHandle (m : AddrMgr) (duid : Duid) : Option Nat :=
  (firstMatch (·.duid == duid) m.clients).map Prod.fst

namespace AddrClient

variable {c : AddrClient} {duid : Duid} {addr : Option IPv6Addr} {ifname : List Char}
  {ifindex : BitVec 32} {iaid t1 t2 : UInt64} {p : IPv6Addr} {pref valid : UInt64}
  {length : BitVec 32} {now : UInt64}

theorem addPrefix_of_false
    (h : (c.addPrefix duid addr ifname ifindex iaid t1 t2 p pref valid length now).1 = false) :
    (c.addPrefix duid addr ifname ifindex iaid t1 t2 p pref valid length now).2 =
      c.modifyPD iaid fun pd => { pd with t1 := t1, t2 := t2 } := by
  cases hj : firstMatch (·.iaid == iaid) c.pd with
  | none => simp [addPrefix_of_not_found hj] at h
  | some r =>
    rw [addPrefix_of_found hj] at h ⊢
    cases hp : firstMatch (·.addr == p) r.2.leases with
    | none => simp [hp] at h
    | some _ => simp [hp, modifyPD, hj]

theorem updatePrefix_of_false (h : (c.updatePrefix iaid t1 t2 p pref valid now).1 = false) :
    (c.updatePrefix iaid t1 t2 p pref valid now).2 =
      c.modifyPD iaid fun pd => { pd with timestamp := now, t1 := t1, t2 := t2 } := by
  cases hj : firstMatch (·.iaid == iaid) c.pd with
  | none => simp [updatePrefix_of_not_found hj, modifyPD, hj]
  | some r =>
    rw [updatePrefix_of_found hj] at h ⊢
    cases hp : firstMatch (·.addr == p) r.2.leases with
    | none => simp [hp, modifyPD, hj]
    | some _ => simp [hp] at h

end AddrClient

namespace AddrMgr

variable {m : AddrMgr} {client : Option Nat} {duid : Duid} {addr : Option IPv6Addr}
  {ifname : List Char} {ifindex : BitVec 32} {iaid t1 t2 : UInt64} {p : Option IPv6Addr}
  {pref valid : UInt64} {length : BitVec 32} {now : UInt64}

theorem addPrefixClient_of_false
    (h : (m.addPrefixClient client duid addr ifname ifindex iaid t1 t2 p pref valid length
      now).1 = false) :
    (m.addPrefixClient client duid addr ifname ifindex iaid t1 t2 p pref valid length now).2 =
      if p.isSome then m.modifyPD client iaid (fun pd => { pd with t1 := t1, t2 := t2 })
      else m := by
  cases p with
  | none => rfl
  | some p =>
    cases client with
    | none => rfl
    | some i =>
      cases hc : m.clients[i]? with
      | none => simp [addPrefixClient, modifyPD, hc]
      | some c =>
        simp only [addPrefixClient, hc] at h ⊢
        simp [modifyPD, hc, AddrClient.addPrefix_of_false h]

theorem updatePrefixClient_of_false
    (h : (m.updatePrefixClient client iaid t1 t2 p pref valid now).1 = false) :
    (m.updatePrefixClient client iaid t1 t2 p pref valid now).2 =
      if p.isSome then
        m.modifyPD client iaid (fun pd => { pd with timestamp := now, t1 := t1, t2 := t2 })
      else m := by
  cases p with
  | none => rfl
  | some p =>
    cases client with
    | none => rfl
    | some i =>
      cases hc : m.clients[i]? with
      | none => simp [updatePrefixClient, modifyPD, hc]
      | some c =>
        simp only [updatePrefixClient, hc] at h ⊢
        simp [modifyPD, hc, AddrClient.updatePrefix_of_false h]

/-- A failed call changes at most the timers of the PD it found before failing: `addPrefix`
sets that PD's T1 and T2, `updatePrefix` also refreshes its timestamp, and `delPrefix`
changes nothing. The DUID variant of `addPrefix` with a null prefix and an unknown DUID is
left out: it appends an empty client. -/
theorem failedCall_sets_only_timers :
    (∀ (m : AddrMgr) (duid : Duid) (addr : Option IPv6Addr) (ifname : List Char)
        (ifindex : BitVec 32) (iaid t1 t2 : UInt64) (p : Option IPv6Addr) (pref valid : UInt64)
        (length : BitVec 32) (now : UInt64),
      p.isSome ∨ (m.clientHandle duid).isSome →
      (m.addPrefix duid addr ifname ifindex iaid t1 t2 p pref valid length now).1 = false →
      (m.addPrefix duid addr ifname ifindex iaid t1 t2 p pref valid length now).2 =
        if p.isSome then
          m.modifyPD (m.clientHandle duid) iaid fun pd => { pd with t1 := t1, t2 := t2 }
        else m) ∧
    (∀ (m : AddrMgr) (client : Option Nat) (duid : Duid) (addr : Option IPv6Addr)
        (ifname : List Char) (ifindex : BitVec 32) (iaid t1 t2 : UInt64) (p : Option IPv6Addr)
        (pref valid : UInt64) (length : BitVec 32) (now : UInt64),
      (m.addPrefixClient client duid addr ifname ifindex iaid t1 t2 p pref valid length
        now).1 = false →
      (m.addPrefixClient client duid addr ifname ifindex iaid t1 t2 p pref valid length now).2 =
        if p.isSome then m.modifyPD client iaid fun pd => { pd with t1 := t1, t2 := t2 }
        else m) ∧
    (∀ (m : AddrMgr) (duid : Duid) (iaid t1 t2 : UInt64) (p : Option IPv6Addr)
        (pref valid now : UInt64) (r : Bool × AddrMgr),
      m.updatePrefix duid iaid t1 t2 p pref valid now = some r → r.1 = false →
      r.2 = if p.isSome then
          m.modifyPD (m.clientHandle duid) iaid
            fun pd => { pd with timestamp := now, t1 := t1, t2 := t2 }
        else m) ∧
    (∀ (m : AddrMgr) (client : Option Nat) (iaid t1 t2 : UInt64) (p : Option IPv6Addr)
        (pref valid now : UInt64),
      (m.updatePrefixClient client iaid t1 t2 p pref valid now).1 = false →
      (m.updatePrefixClient client iaid t1 t2 p pref valid now).2 =
        if p.isSome then
          m.modifyPD client iaid fun pd => { pd with timestamp := now, t1 := t1, t2 := t2 }
        else m) ∧
    ∀ (m : AddrMgr) (duid : Duid) (iaid : UInt64) (p : IPv6Addr),
      (m.delPrefix duid iaid p).1 = false → (m.delPrefix duid iaid p).2 = m := by
  refine ⟨fun m duid addr ifname ifindex iaid t1 t2 p pref valid length now known h => ?_,
    fun _ _ _ _ _ _ _ _ _ _ _ _ _ _ h => addPrefixClient_of_false h,
    fun m duid iaid t1 t2 p pref valid now r hr h => ?_,
    fun _ _ _ _ _ _ _ _ _ h => updatePrefixClient_of_false h,
    fun _ _ _ _ h => delPrefix_of_false h⟩
  · cases hi : firstMatch (·.duid == duid) m.clients with
    | some r =>
      simp only [addPrefix, hi] at h ⊢
      rw [addPrefixClient_of_false h]
      simp [clientHandle, hi]
    | none =>
      cases p with
      | none => simp [clientHandle, hi] at known
      | some p =>
        -- the appended client has no PD, so the prefix is added
        simp [addPrefix, hi, addPrefixClient, AddrClient.addPrefix_of_not_found, firstMatch] at h
  · cases hi : firstMatch (·.duid == duid) m.clients with
    | none =>
      cases p <;> simp only [updatePrefix, hi, Option.map_none', Option.map_some',
        Option.some.injEq, reduceCtorEq] at hr
      subst hr
      simp [clientHandle, hi, modifyPD]
    | some i =>
      simp only [updatePrefix, hi, Option.some.injEq] at hr
      subst hr
      rw [updatePrefixClient_of_false h]
      simp [clientHandle, hi]

/-- The amended law at the duplicate of the counterexample below: only the PD's T1 moved. -/
theorem failedCall_sets_only_timers_at_duplicate :
    let lo : IPv6Addr := ⟨[0, 0, 0, 0, 0, 0, 0, 1], rfl⟩
    let m := (empty.addPrefix ⟨[1]⟩ none [] 0 1 10 20 (some lo) 5 5 64 0).2
    (m.addPrefix ⟨[1]⟩ none [] 0 1 11 20 (some lo) 5 5 64 0).2 =
      m.modifyPD (m.clientHandle ⟨[1]⟩) 1 fun pd => { pd with t1 := 11, t2 := 20 } :=
  failedCall_sets_only_timers.1 _ _ _ _ _ _ _ _ _ _ _ _ _ (.inl rfl) (by decide)

/-- A duplicate `addPrefix` with a new T1 returns false and still changes the store. -/
theorem addPrefix_duplicate_changes_store :
    let lo : IPv6Addr := ⟨[0, 0, 0, 0, 0, 0, 0, 1], rfl⟩
    let m := (empty.addPrefix ⟨[1]⟩ none [] 0 1 10 20 (some lo) 5 5 64 0).2
    (m.addPrefix ⟨[1]⟩ none [] 0 1 11 20 (some lo) 5 5 64 0).1 = false ∧
      (m.addPrefix ⟨[1]⟩ none [] 0 1 11 20 (some lo) 5 5 64 0).2 ≠ m := by
  decide

/-- From the empty store, `addPrefix` with a null prefix and a new DUID fails and leaves a
client with no IA, TA or PD. -/
theorem addPrefix_nullPrefix_leaves_empty_client :
    (empty.addPrefix ⟨[1]⟩ none [] 0 1 0 0 none 0 0 0 0).1 = false ∧
    (empty.addPrefix ⟨[1]⟩ none [] 0 1 0 0 none 0 0 0 0).2.Reachable ∧
    ∃ c ∈ (empty.addPrefix ⟨[1]⟩ none [] 0 1 0 0 none 0 0 0 0).2.clients,
      c.ia.length = 0 ∧ c.ta.length = 0 ∧ c.pd.length = 0 :=
  ⟨by decide, .call 0 (.addPrefix ⟨[1]⟩ none [] 0 1 0 0 none 0 0 0) .empty rfl, by decide⟩

end AddrMgr

end Dibbler
