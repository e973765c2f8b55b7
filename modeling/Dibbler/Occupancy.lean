import Dibbler.KeyInvariant

/-! No PD of the store is empty. `addPrefix` creates a PD only to give it a prefix,
`updatePrefix` rewrites a prefix in place, and `delPrefix` deletes the PD whose last prefix
it removes; `delClient` and `updateInterfacesInfo` leave every prefix where it is. So every
call keeps the property, whatever it returns, and every store reachable from the empty store
has it. -/

namespace Dibbler

/-- Every PD of the client holds a prefix. -/
def AddrClient.PDsHeld (c : AddrClient) : Prop := ∀ pd ∈ c.pd, pd.leases ≠ []

/-- Every PD of every client of the store holds a prefix. -/
def AddrMgr.PDsHeld (m : AddrMgr) : Prop := ∀ c ∈ m.clients, c.PDsHeld

/-- Erasing the element written at a position leaves elements of the original list. -/
theorem mem_of_mem_eraseIdx_set {α : Type} {l : List α} {j : Nat} {a x : α}
    (h : x ∈ (l.set j a).eraseIdx j) : x ∈ l := by
  obtain ⟨i, hij, hx⟩ := List.mem_eraseIdx_iff_getElem?.mp h
  rw [List.getElem?_set_ne (Ne.symm hij)] at hx
  exact List.getElem?_mem hx

namespace AddrClient

variable {c : AddrClient} {j : Nat} {pd : AddrIA}

theorem PDsHeld.setPD (hc : c.PDsHeld) (hpd : pd.leases ≠ []) : (c.setPD j pd).PDsHeld :=
  forall_mem_set hc hpd

variable {duid : Duid} {addr : Option IPv6Addr} {ifname : List Char} {ifindex : BitVec 32}
  {iaid t1 t2 : UInt64} {p : IPv6Addr} {pref valid : UInt64} {length : BitVec 32} {now : UInt64}

theorem pdsHeld_addPrefix (hc : c.PDsHeld) :
    (c.addPrefix duid addr ifname ifindex iaid t1 t2 p pref valid length now).2.PDsHeld := by
  cases h : firstMatch (·.iaid == iaid) c.pd with
  | none =>
    rw [addPrefix_of_not_found h]
    intro pd' h'
    rcases List.mem_append.mp h' with h' | h'
    · exact hc pd' h'
    · rw [List.mem_singleton.mp h']
      exact List.append_ne_nil_of_right_ne_nil _ (List.cons_ne_nil _ _)
  | some r =>
    have held := hc r.2 (firstMatch_mem h)
    rw [addPrefix_of_found h]
    split
    · exact hc.setPD held
    · exact hc.setPD (List.append_ne_nil_of_right_ne_nil _ (List.cons_ne_nil _ _))

theorem pdsHeld_updatePrefix (hc : c.PDsHeld) :
    (c.updatePrefix iaid t1 t2 p pref valid now).2.PDsHeld := by
  cases h : firstMatch (·.iaid == iaid) c.pd with
  | none => rw [updatePrefix_of_not_found h]; exact hc
  | some r =>
    have held := hc r.2 (firstMatch_mem h)
    rw [updatePrefix_of_found h]
    split
    · exact hc.setPD held
    · exact hc.setPD (by simpa [List.set_eq_nil_iff] using held)

theorem pdsHeld_updateInterfacesInfo (nameToIndex : List Char → Option (BitVec 32))
    (indexToName : BitVec 32 → Option (List Char)) (hc : c.PDsHeld) :
    (c.updateInterfacesInfo (updateInterfacesInfoIA nameToIndex indexToName)).2.PDsHeld := by
  unfold AddrClient.updateInterfacesInfo
  split
  · exact hc
  · split
    · exact hc
    · intro pd h
      obtain ⟨a, ha, rfl | rfl⟩ := updateEach_mem h
      · exact hc pd ha
      · rw [updateInterfacesInfoIA_leases]; exact hc a ha

end AddrClient

namespace AddrMgr

variable {m : AddrMgr} {i : Nat} {c : AddrClient}

theorem PDsHeld.setClient (hm : m.PDsHeld) (hc : c.PDsHeld) : (m.setClient i c).PDsHeld :=
  forall_mem_set hm hc

theorem PDsHeld.of_getElem? (hm : m.PDsHeld) (hi : m.clients[i]? = some c) : c.PDsHeld :=
  hm c (List.getElem?_mem hi)

theorem pdsHeld_delClient (hm : m.PDsHeld) (duid : Duid) : (m.delClient duid).2.PDsHeld := by
  unfold delClient
  split
  · exact hm
  · exact fun c h => hm c ((List.eraseIdx_sublist _ _).subset h)

variable {duid : Duid} {addr : Option IPv6Addr} {ifname : List Char} {ifindex : BitVec 32}
  {iaid t1 t2 : UInt64} {p : Option IPv6Addr} {pref valid : UInt64} {length : BitVec 32}
  {now : UInt64}

theorem pdsHeld_addPrefixClient (hm : m.PDsHeld) (client : Option Nat) :
    (m.addPrefixClient client duid addr ifname ifindex iaid t1 t2 p pref valid length
      now).2.PDsHeld :=
  addPrefixClient_elim (·.PDsHeld) client p hm fun _ _ _ _ _ hc =>
    hm.setClient (AddrClient.pdsHeld_addPrefix (hm.of_getElem? hc))

theorem pdsHeld_addPrefix (hm : m.PDsHeld) :
    (m.addPrefix duid addr ifname ifindex iaid t1 t2 p pref valid length now).2.PDsHeld := by
  unfold addPrefix
  split
  · exact pdsHeld_addPrefixClient hm _
  · refine pdsHeld_addPrefixClient (fun c h => ?_) _
    rcases List.mem_append.mp h with h | h
    · exact hm c h
    · rw [List.mem_singleton.mp h]
      exact fun pd hpd => by simp at hpd

theorem pdsHeld_updatePrefixClient (hm : m.PDsHeld) (client : Option Nat) :
    (m.updatePrefixClient client iaid t1 t2 p pref valid now).2.PDsHeld :=
  updatePrefixClient_elim (·.PDsHeld) client p hm fun _ _ _ _ _ hc =>
    hm.setClient (AddrClient.pdsHeld_updatePrefix (hm.of_getElem? hc))

theorem pdsHeld_updatePrefix (hm : m.PDsHeld) {r : Bool × AddrMgr}
    (h : m.updatePrefix duid iaid t1 t2 p pref valid now = some r) : r.2.PDsHeld := by
  unfold updatePrefix at h
  split at h
  · cases p <;> cases h; exact hm
  · cases h; exact pdsHeld_updatePrefixClient hm _

/-- The PD `delPrefix` empties is the one its IAID cursor found, so deleting the first PD
with that IAID deletes it. -/
theorem pdsHeld_delPrefix (hm : m.PDsHeld) (prefixAddr : IPv6Addr) :
    (m.delPrefix duid iaid prefixAddr).2.PDsHeld := by
  rcases delPrefix_cases m duid iaid prefixAddr with
    ⟨h, -⟩ | ⟨i, c, j, pd, -, client', hi, hj, -, hcl, h⟩
  · rw [h]; exact hm
  · have hc := hm c (firstMatch_mem hi)
    have hc' : client'.PDsHeld := by
      rw [hcl]
      split
      · next empty =>
        have found := firstMatch_set hj (by simpa using firstMatch_pred hj :
          ((pd.delPrefix prefixAddr).iaid == iaid) = true)
        intro pd' h'
        rw [AddrClient.delPD_pd, AddrClient.setPD_pd, ← firstMatch_eraseIdx found] at h'
        exact hc pd' (mem_of_mem_eraseIdx_set h')
      · next kept => exact hc.setPD (by simpa [List.length_eq_zero] using kept)
    rw [h]
    split
    · exact pdsHeld_delClient (hm.setClient hc') _
    · exact hm.setClient hc'

theorem pdsHeld_updateInterfacesInfo (hm : m.PDsHeld)
    (nameToIndex : List Char → Option (BitVec 32))
    (indexToName : BitVec 32 → Option (List Char)) :
    (m.updateInterfacesInfo nameToIndex indexToName).2.PDsHeld := by
  intro c h
  obtain ⟨a, ha, rfl | rfl⟩ := updateEach_mem h
  · exact hm c ha
  · exact AddrClient.pdsHeld_updateInterfacesInfo _ _ (hm a ha)

theorem pdsHeld_call (hm : m.PDsHeld) {now : UInt64} {call : Call} {m' : AddrMgr}
    (h : m.call now call = some m') : m'.PDsHeld := by
  cases call with
  | addPrefix => cases h; exact pdsHeld_addPrefix hm
  | addPrefixClient => cases h; exact pdsHeld_addPrefixClient hm _
  | updatePrefix =>
    simp only [AddrMgr.call, Option.map_eq_some'] at h
    obtain ⟨r, hr, rfl⟩ := h
    exact pdsHeld_updatePrefix hm hr
  | updatePrefixClient => cases h; exact pdsHeld_updatePrefixClient hm _
  | delPrefix => cases h; exact pdsHeld_delPrefix hm _
  | delClient => cases h; exact pdsHeld_delClient hm _
  | updateInterfacesInfo => cases h; exact pdsHeld_updateInterfacesInfo hm _ _

/-- No store the mutation API builds from the empty store holds an empty PD. -/
theorem pdsHeld_invariant (m : AddrMgr) (hm : m.Reachable) :
    ∀ c ∈ m.clients, ∀ pd ∈ c.pd, pd.leases ≠ [] := by
  induction hm with
  | empty => exact nofun
  | call now c _ hstep ih => exact pdsHeld_call ih hstep

/-- The store after one `addPrefix` from the empty store. -/
theorem pdsHeld_invariant_first_call :
    let m := (empty.addPrefix ⟨[1]⟩ none [] 0 1 0 0 (some ⟨[0, 0, 0, 0, 0, 0, 0, 1], rfl⟩) 5 5 64
      0).2
    m.Reachable ∧ ∀ c ∈ m.clients, ∀ pd ∈ c.pd, pd.leases ≠ [] :=
  have hr : (empty.addPrefix ⟨[1]⟩ none [] 0 1 0 0 (some ⟨[0, 0, 0, 0, 0, 0, 0, 1], rfl⟩) 5 5 64
      0).2.Reachable :=
    .call 0 (.addPrefix ⟨[1]⟩ none [] 0 1 0 0 (some ⟨[0, 0, 0, 0, 0, 0, 0, 1], rfl⟩) 5 5 64)
      .empty rfl
  ⟨hr, pdsHeld_invariant _ hr⟩

end AddrMgr

end Dibbler
