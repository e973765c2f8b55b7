import Dibbler.Store

/-! Releasing a fresh delegation undoes it. `addPrefix` for an IAID the client does not hold
appends a PD holding the one prefix, and creates the client first when the DUID has none;
`delPrefix` of that prefix then empties the PD, deletes it, and deletes the client again when
that leaves it without IA, TA and PD. So the pair gives back the store it started from, unless
the client was already there and empty. -/

namespace Dibbler

/-- The cursor stops on an appended element it accepts when it skips the whole list. -/
theorem firstMatch_append_of_none {α : Type} {p : α → Bool} {l : List α} {b : α}
    (h : firstMatch p l = none) (hb : p b = true) :
    firstMatch p (l ++ [b]) = some (l.length, b) := by
  induction l with
  | nil => simp [firstMatch, hb]
  | cons a l ih =>
    have ha : p a = false := firstMatch_eq_none.mp h a (List.mem_cons_self a l)
    have hl : firstMatch p l = none :=
      firstMatch_eq_none.mpr fun x hx => firstMatch_eq_none.mp h x (List.mem_cons_of_mem a hx)
    simp [firstMatch, ha, ih hl]

namespace AddrClient

/-- `delPrefix`'s work on a client after `addPrefix` put a prefix under an IAID the client did
not hold: its cursors find the appended PD and the prefix, the PD is left empty and goes, and
the client is as it was. -/
theorem release_addPrefix (c : AddrClient) (duid : Duid) (addr : Option IPv6Addr)
    (ifname : List Char) (ifindex : BitVec 32) (iaid t1 t2 : UInt64) (p : IPv6Addr)
    (pref valid : UInt64) (length : BitVec 32) (now : UInt64)
    (h : firstMatch (·.iaid == iaid) c.pd = none) :
    ∃ pd lease, c.addPrefix duid addr ifname ifindex iaid t1 t2 p pref valid length now =
        (true, c.addPD pd) ∧
      firstMatch (·.iaid == iaid) (c.addPD pd).pd = some (c.pd.length, pd) ∧
      firstMatch (·.addr == p) pd.leases = some lease ∧ (pd.delPrefix p).leases = [] ∧
      ((c.addPD pd).setPD c.pd.length (pd.delPrefix p)).delPD iaid = c := by
  have skip : ∀ x ∈ c.pd, ¬(x.iaid == iaid) = true := fun x hx => by
    simp [firstMatch_eq_none.mp h x hx]
  refine ⟨_, (0, ⟨p, pref, valid, length, now⟩), addPrefix_of_not_found h,
    firstMatch_append_of_none h (by simp),
    by simp [firstMatch], by simp, ?_⟩
  simp only [delPD, setPD, addPD, List.set_append_right _ _ (Nat.le_refl _), Nat.sub_self,
    List.set_cons_zero, List.set_nil, List.eraseP_append_right _ skip]
  simp

end AddrClient

namespace AddrMgr

variable {m : AddrMgr} {duid : Duid} {addr : Option IPv6Addr} {ifname : List Char}
  {ifindex : BitVec 32} {iaid t1 t2 : UInt64} {p : IPv6Addr} {pref valid : UInt64}
  {length : BitVec 32} {now : UInt64}

/-- `delPrefix` once its three cursors have found the client, the PD and the prefix. -/
theorem delPrefix_of_found {i j : Nat} {c : AddrClient} {pd : AddrIA} {lease : Nat × AddrAddr}
    (hi : firstMatch (·.duid == duid) m.clients = some (i, c))
    (hj : firstMatch (·.iaid == iaid) c.pd = some (j, pd))
    (hk : firstMatch (·.addr == p) pd.leases = some lease) :
    m.delPrefix duid iaid p =
      let client := if (pd.delPrefix p).leases.length = 0 then
        (c.setPD j (pd.delPrefix p)).delPD iaid else c.setPD j (pd.delPrefix p)
      (true, if client.ia.length = 0 ∧ client.ta.length = 0 ∧ client.pd.length = 0 ∧
          m.deleteEmptyClient then ((m.setClient i client).delClient duid).2
        else m.setClient i client) := by
  simp only [delPrefix, hi, hj, hk]
  rfl

/-- Deleting the client just appended for a new DUID gives back the store. -/
theorem delClient_addClient {c : AddrClient} (h : firstMatch (·.duid == duid) m.clients = none)
    (hc : c.duid = duid) : ((m.addClient c).delClient duid).2 = m := by
  simp only [delClient, addClient_clients, firstMatch_append_of_none h (b := c) (by simp [hc]),
    List.eraseIdx_append_of_length_le (Nat.le_refl _), Nat.sub_self, List.eraseIdx_cons_zero,
    List.append_nil]
  rfl

theorem setClient_addClient_length (c c' : AddrClient) :
    (m.addClient c).setClient m.clients.length c' = m.addClient c' := by
  simp [setClient, addClient, List.set_append_right]

/-- A fresh delegation released: when the DUID's client, if there is one, holds an
assignment but no PD with this IAID, `addPrefix` succeeds, and `delPrefix` of the same prefix
then succeeds and gives back the store `addPrefix` started from. With `DeleteEmptyClient` set,
as the constructor leaves it, a client `addPrefix` created for a new DUID goes again. -/
theorem delPrefix_addPrefix_of_fresh
    (hfresh : ∀ i c, firstMatch (·.duid == duid) m.clients = some (i, c) →
      firstMatch (·.iaid == iaid) c.pd = none ∧ (c.ia ≠ [] ∨ c.ta ≠ [] ∨ c.pd ≠ []))
    (hd : m.deleteEmptyClient = true) :
    (m.addPrefix duid addr ifname ifindex iaid t1 t2 (some p) pref valid length now).1 = true ∧
      (m.addPrefix duid addr ifname ifindex iaid t1 t2 (some p) pref valid length
        now).2.delPrefix duid iaid p = (true, m) := by
  cases h : firstMatch (·.duid == duid) m.clients with
  | none =>
    obtain ⟨pd, lease, hadd, hj, hk, hempty, hback⟩ := AddrClient.release_addPrefix (.create duid)
      duid addr ifname ifindex iaid t1 t2 p pref valid length now rfl
    rw [addPrefix_of_not_found h, hadd]
    refine ⟨rfl, ?_⟩
    rw [delPrefix_of_found (firstMatch_append_of_none h (by simp)) hj hk]
    simp only [hempty, List.length_nil, if_true, hback]
    rw [if_pos ⟨rfl, rfl, rfl, hd⟩, setClient_addClient_length, delClient_addClient h rfl]
  | some r =>
    obtain ⟨i, c⟩ := r
    obtain ⟨hnew, hheld⟩ := hfresh i c h
    have hc : c.duid = duid := by simpa using firstMatch_pred h
    obtain ⟨pd, lease, hadd, hj, hk, hempty, hback⟩ := AddrClient.release_addPrefix c
      duid addr ifname ifindex iaid t1 t2 p pref valid length now hnew
    rw [addPrefix_of_found h, hadd]
    refine ⟨rfl, ?_⟩
    rw [delPrefix_of_found (firstMatch_set h (by simp [hc])) hj hk]
    simp only [hempty, List.length_nil, if_true, hback]
    rw [if_neg fun ⟨hia, hta, hpd, _⟩ => by
      simp only [List.length_eq_zero] at hia hta hpd
      simp [hia, hta, hpd] at hheld]
    have same : m.clients.set i c = m.clients := by
      simpa using map_set_of_key (f := id) (firstMatch_getElem? h) rfl
    simp only [setClient, List.set_set, same]

end AddrMgr

/-- The client holding one prefix under IAID 1 takes and releases a second prefix under
IAID 2. -/
theorem delPrefix_addPrefix_second_pd :
    let m := (AddrMgr.empty.addPrefix ⟨[1]⟩ none [] 0 1 0 0 (some ⟨[0, 0, 0, 0, 0, 0, 0, 1], rfl⟩)
      5 5 64 0).2
    let net : IPv6Addr := ⟨[0x2001, 0xdb8, 0, 0, 0, 0, 0, 0], rfl⟩
    (∀ i c, firstMatch (·.duid == ⟨[1]⟩) m.clients = some (i, c) →
      firstMatch (·.iaid == 2) c.pd = none ∧ (c.ia ≠ [] ∨ c.ta ≠ [] ∨ c.pd ≠ [])) ∧
      m.deleteEmptyClient = true ∧
      (m.addPrefix ⟨[1]⟩ none [] 0 2 0 0 (some net) 5 5 64 3).1 = true ∧
      (m.addPrefix ⟨[1]⟩ none [] 0 2 0 0 (some net) 5 5 64 3).2.delPrefix ⟨[1]⟩ 2 net =
        (true, m) := by
  intro m net
  have hfresh : ∀ i c, firstMatch (·.duid == ⟨[1]⟩) m.clients = some (i, c) →
      firstMatch (·.iaid == 2) c.pd = none ∧ (c.ia ≠ [] ∨ c.ta ≠ [] ∨ c.pd ≠ []) := by
    intro i c h
    cases h
    exact ⟨rfl, .inr (.inr nofun)⟩
  exact ⟨hfresh, rfl, AddrMgr.delPrefix_addPrefix_of_fresh hfresh rfl⟩

end Dibbler
