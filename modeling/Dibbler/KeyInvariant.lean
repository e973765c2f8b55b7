import Dibbler.Store

/-! Key uniqueness of the store, for the keys the manager searches by (spec §8): client DUIDs
are distinct, the IAIDs of a client's PDs are distinct, and the prefixes of a PD are
distinct. Every call of the mutation API keeps it, whatever the call returns, so every store
reachable from the empty store has it. -/

namespace Dibbler

/-- Key uniqueness within one client. -/
structure AddrClient.KeyUnique (client : AddrClient) : Prop where
  iaids : (client.pd.map AddrIA.iaid).Nodup
  prefixes : ∀ pd ∈ client.pd, (pd.leases.map AddrAddr.addr).Nodup

/-- Key uniqueness of the store. -/
structure AddrMgr.KeyUnique (m : AddrMgr) : Prop where
  duids : (m.clients.map AddrClient.duid).Nodup
  clients : ∀ c ∈ m.clients, c.KeyUnique

/-- Appending an element whose key the cursor did not find keeps the keys distinct. -/
theorem nodup_map_append_of_firstMatch {α β : Type} [DecidableEq β] {f : α → β} {l : List α}
    {a : α} (hl : (l.map f).Nodup) (h : firstMatch (fun x => f x == f a) l = none) :
    ((l ++ [a]).map f).Nodup := by
  have fresh : f a ∉ l.map f := by simpa using firstMatch_eq_none.mp h
  simpa [List.concat_eq_append] using hl.concat fresh

theorem updateEach_map {α β : Type} {f : α → Bool × α} {g : α → β} (hg : ∀ a, g (f a).2 = g a) :
    ∀ l : List α, (updateEach f l).2.map g = l.map g
  | [] => rfl
  | a :: rest => by
    have ih := updateEach_map hg rest
    simp only [updateEach]
    split <;> next a' hf => simp [ih, ← hg a, hf]

theorem updateEach_mem {α : Type} {f : α → Bool × α} :
    ∀ {l : List α} {x : α}, x ∈ (updateEach f l).2 → ∃ a ∈ l, x = a ∨ x = (f a).2
  | [], _, h => by simp [updateEach] at h
  | a :: rest, x, h => by
    simp only [updateEach] at h
    split at h
    · next a' hf =>
      rcases List.mem_cons.mp h with rfl | h
      · exact ⟨a, List.mem_cons_self _ _, .inr (by rw [hf])⟩
      · exact ⟨x, List.mem_cons_of_mem _ h, .inl rfl⟩
    · next a' hf =>
      rcases List.mem_cons.mp h with rfl | h
      · exact ⟨a, List.mem_cons_self _ _, .inr (by rw [hf])⟩
      · obtain ⟨b, hb, hx⟩ := updateEach_mem h
        exact ⟨b, List.mem_cons_of_mem _ hb, hx⟩

@[simp] theorem updateInterfacesInfoIA_iaid (nameToIndex : List Char → Option (BitVec 32))
    (indexToName : BitVec 32 → Option (List Char)) (ia : AddrIA) :
    (updateInterfacesInfoIA nameToIndex indexToName ia).2.iaid = ia.iaid := by
  unfold updateInterfacesInfoIA; split <;> split <;> try split
  all_goals rfl

@[simp] theorem updateInterfacesInfoIA_leases (nameToIndex : List Char → Option (BitVec 32))
    (indexToName : BitVec 32 → Option (List Char)) (ia : AddrIA) :
    (updateInterfacesInfoIA nameToIndex indexToName ia).2.leases = ia.leases := by
  unfold updateInterfacesInfoIA; split <;> split <;> try split
  all_goals rfl

namespace AddrClient

variable {c c' : AddrClient} {j : Nat} {pd pd' : AddrIA}

theorem KeyUnique.setPD (hk : c.KeyUnique) (hj : c.pd[j]? = some pd) (hiaid : pd'.iaid = pd.iaid)
    (hl : (pd'.leases.map AddrAddr.addr).Nodup) : (c.setPD j pd').KeyUnique where
  iaids := by rw [setPD_pd, map_set_of_key hj hiaid]; exact hk.iaids
  prefixes := forall_mem_set hk.prefixes hl

theorem KeyUnique.delPD (hk : c.KeyUnique) (iaid : UInt64) : (c.delPD iaid).KeyUnique where
  iaids := hk.iaids.sublist ((List.eraseP_sublist _).map _)
  prefixes pd h := hk.prefixes pd ((List.eraseP_sublist _).subset h)

variable {duid : Duid} {addr : Option IPv6Addr} {ifname : List Char} {ifindex : BitVec 32}
  {iaid t1 t2 : UInt64} {p : IPv6Addr} {pref valid : UInt64} {length : BitVec 32} {now : UInt64}

theorem keyUnique_addPrefix (hk : c.KeyUnique) :
    (c.addPrefix duid addr ifname ifindex iaid t1 t2 p pref valid length now).2.KeyUnique := by
  cases h : firstMatch (·.iaid == iaid) c.pd with
  | none =>
    rw [addPrefix_of_not_found h]
    exact ⟨nodup_map_append_of_firstMatch hk.iaids h, by
      simpa [or_imp, forall_and, AddrIA.addPrefix, AddrIA.create] using hk.prefixes⟩
  | some r =>
    have hj := firstMatch_getElem? h
    have hl := hk.prefixes r.2 (firstMatch_mem h)
    rw [addPrefix_of_found h]
    split
    · exact hk.setPD hj rfl hl
    · next fresh => exact hk.setPD hj rfl (nodup_map_append_of_firstMatch hl fresh)

theorem keyUnique_updatePrefix (hk : c.KeyUnique) :
    (c.updatePrefix iaid t1 t2 p pref valid now).2.KeyUnique := by
  cases h : firstMatch (·.iaid == iaid) c.pd with
  | none => rw [updatePrefix_of_not_found h]; exact hk
  | some r =>
    have hj := firstMatch_getElem? h
    have hl := hk.prefixes r.2 (firstMatch_mem h)
    rw [updatePrefix_of_found h]
    split
    · exact hk.setPD hj rfl hl
    · next k lease found =>
      refine hk.setPD hj rfl ?_
      rw [map_set_of_key (firstMatch_getElem? found)]
      exacts [hl, rfl]

@[simp] theorem updateInterfacesInfo_duid (f : AddrIA → Bool × AddrIA) (c : AddrClient) :
    (c.updateInterfacesInfo f).2.duid = c.duid := by
  unfold AddrClient.updateInterfacesInfo; split <;> try split
  all_goals rfl

theorem keyUnique_updateInterfacesInfo {f : AddrIA → Bool × AddrIA}
    (hiaid : ∀ ia, (f ia).2.iaid = ia.iaid) (hleases : ∀ ia, (f ia).2.leases = ia.leases)
    (hk : c.KeyUnique) : (c.updateInterfacesInfo f).2.KeyUnique := by
  have keep : ∀ pds : List AddrIA, (∀ pd ∈ pds, (pd.leases.map AddrAddr.addr).Nodup) →
      ∀ pd ∈ (updateEach f pds).2, (pd.leases.map AddrAddr.addr).Nodup := by
    intro pds hpds x hx
    obtain ⟨a, ha, rfl | rfl⟩ := updateEach_mem hx
    · exact hpds x ha
    · rw [hleases]; exact hpds a ha
  unfold AddrClient.updateInterfacesInfo
  split
  · exact ⟨hk.iaids, hk.prefixes⟩
  · split
    · exact ⟨hk.iaids, hk.prefixes⟩
    · exact ⟨by rw [updateEach_map hiaid]; exact hk.iaids, keep _ hk.prefixes⟩

end AddrClient

namespace AddrMgr

variable {m : AddrMgr} {i : Nat} {c c' : AddrClient}

theorem KeyUnique.setClient (hk : m.KeyUnique) (hi : m.clients[i]? = some c)
    (hd : c'.duid = c.duid) (hc : c'.KeyUnique) : (m.setClient i c').KeyUnique where
  duids := by rw [setClient_clients, map_set_of_key hi hd]; exact hk.duids
  clients := forall_mem_set hk.clients hc

theorem keyUnique_delClient (hk : m.KeyUnique) (duid : Duid) : (m.delClient duid).2.KeyUnique := by
  unfold delClient
  split
  · exact hk
  · exact ⟨hk.duids.sublist ((List.eraseIdx_sublist _ _).map _),
      fun c h => hk.clients c ((List.eraseIdx_sublist _ _).subset h)⟩

variable {duid : Duid} {addr : Option IPv6Addr} {ifname : List Char} {ifindex : BitVec 32}
  {iaid t1 t2 : UInt64} {p : Option IPv6Addr} {pref valid : UInt64} {length : BitVec 32}
  {now : UInt64}

theorem keyUnique_addPrefixClient (hk : m.KeyUnique) (client : Option Nat) :
    (m.addPrefixClient client duid addr ifname ifindex iaid t1 t2 p pref valid length now).2.KeyUnique := by
  unfold addPrefixClient
  split
  · exact hk
  · split
    · exact hk
    · split
      · exact hk
      · next c hc =>
        exact hk.setClient hc AddrClient.addPrefix_duid
          (AddrClient.keyUnique_addPrefix (hk.clients c (List.getElem?_mem hc)))

theorem keyUnique_addPrefix (hk : m.KeyUnique) :
    (m.addPrefix duid addr ifname ifindex iaid t1 t2 p pref valid length now).2.KeyUnique := by
  unfold addPrefix
  split
  · exact keyUnique_addPrefixClient hk _
  · next missing =>
    have fresh : firstMatch (fun x => x.duid == (AddrClient.create duid).duid) m.clients = none := by
      simpa using missing
    have hk' : (m.addClient (.create duid)).KeyUnique :=
      ⟨by simpa [addClient] using nodup_map_append_of_firstMatch hk.duids fresh,
       by simpa [addClient, or_imp, forall_and] using
         ⟨hk.clients, (⟨List.nodup_nil, by simp⟩ : (AddrClient.create duid).KeyUnique)⟩⟩
    exact keyUnique_addPrefixClient hk' _

theorem keyUnique_updatePrefixClient (hk : m.KeyUnique) (client : Option Nat) :
    (m.updatePrefixClient client iaid t1 t2 p pref valid now).2.KeyUnique := by
  unfold updatePrefixClient
  split
  · exact hk
  · split
    · exact hk
    · split
      · exact hk
      · next c hc =>
        exact hk.setClient hc AddrClient.updatePrefix_duid
          (AddrClient.keyUnique_updatePrefix (hk.clients c (List.getElem?_mem hc)))

theorem keyUnique_updatePrefix (hk : m.KeyUnique) {r : Bool × AddrMgr}
    (h : m.updatePrefix duid iaid t1 t2 p pref valid now = some r) : r.2.KeyUnique := by
  unfold updatePrefix at h
  split at h
  · cases p <;> cases h; exact hk
  · cases h; exact keyUnique_updatePrefixClient hk _

theorem keyUnique_delPrefix (hk : m.KeyUnique) (prefixAddr : IPv6Addr) :
    (m.delPrefix duid iaid prefixAddr).2.KeyUnique := by
  rcases delPrefix_cases m duid iaid prefixAddr with
    ⟨h, -⟩ | ⟨i, c, j, pd, -, client', hi, hj, -, hcl, h⟩
  · rw [h]; exact hk
  · have hc := hk.clients c (firstMatch_mem hi)
    have hpd : (c.setPD j (pd.delPrefix prefixAddr)).KeyUnique :=
      hc.setPD (firstMatch_getElem? hj) rfl
        ((hc.prefixes pd (firstMatch_mem hj)).sublist ((List.eraseP_sublist _).map _))
    have hd : client'.duid = c.duid := by rw [hcl]; split <;> rfl
    have hc' : client'.KeyUnique := by rw [hcl]; split; exacts [hpd.delPD iaid, hpd]
    have hm := hk.setClient (firstMatch_getElem? hi) hd hc'
    rw [h]
    split
    · exact keyUnique_delClient hm _
    · exact hm

theorem keyUnique_updateInterfacesInfo (hk : m.KeyUnique)
    (nameToIndex : List Char → Option (BitVec 32)) (indexToName : BitVec 32 → Option (List Char)) :
    (m.updateInterfacesInfo nameToIndex indexToName).2.KeyUnique := by
  have step := fun (c : AddrClient) (hc : c.KeyUnique) =>
    AddrClient.keyUnique_updateInterfacesInfo (updateInterfacesInfoIA_iaid nameToIndex indexToName)
      (updateInterfacesInfoIA_leases nameToIndex indexToName) hc
  refine ⟨?_, fun c hc => ?_⟩
  · simp only [updateInterfacesInfo]
    rw [updateEach_map (AddrClient.updateInterfacesInfo_duid _)]
    exact hk.duids
  · obtain ⟨a, ha, rfl | rfl⟩ := updateEach_mem hc
    · exact hk.clients c ha
    · exact step a (hk.clients a ha)

theorem keyUnique_call (hk : m.KeyUnique) {now : UInt64} {call : Call} {m' : AddrMgr}
    (h : m.call now call = some m') : m'.KeyUnique := by
  cases call with
  | addPrefix => cases h; exact keyUnique_addPrefix hk
  | addPrefixClient => cases h; exact keyUnique_addPrefixClient hk _
  | updatePrefix =>
    simp only [AddrMgr.call, Option.map_eq_some'] at h
    obtain ⟨r, hr, rfl⟩ := h
    exact keyUnique_updatePrefix hk hr
  | updatePrefixClient => cases h; exact keyUnique_updatePrefixClient hk _
  | delPrefix => cases h; exact keyUnique_delPrefix hk _
  | delClient => cases h; exact keyUnique_delClient hk _
  | updateInterfacesInfo => cases h; exact keyUnique_updateInterfacesInfo hk _ _

/-- Key uniqueness is a store invariant: every call keeps it, whatever it returns, and every
store reachable from the empty store has it. -/
theorem keyUnique_invariant :
    (∀ (m m' : AddrMgr) (now : UInt64) (call : Call),
      m.KeyUnique → m.call now call = some m' → m'.KeyUnique) ∧
    ∀ m : AddrMgr, m.Reachable → m.KeyUnique := by
  refine ⟨fun m m' now call hk h => keyUnique_call hk h, fun m hm => ?_⟩
  induction hm with
  | empty => exact ⟨List.nodup_nil, by simp [empty]⟩
  | call now c _ hstep ih => exact keyUnique_call ih hstep

/-- The first `addPrefix` from the empty store: the run form gives the empty store's key
uniqueness, the step form carries it over the call. -/
theorem keyUnique_invariant_first_call :
    let call := Call.addPrefix ⟨[1]⟩ none [] 0 1 0 0 (some ⟨[0, 0, 0, 0, 0, 0, 0, 1], rfl⟩) 5 5 64
    let m := (empty.addPrefix ⟨[1]⟩ none [] 0 1 0 0 (some ⟨[0, 0, 0, 0, 0, 0, 0, 1], rfl⟩) 5 5 64
      0).2
    empty.Reachable ∧ empty.call 0 call = some m ∧ m.KeyUnique :=
  ⟨.empty, rfl, keyUnique_invariant.1 _ _ 0 (.addPrefix ⟨[1]⟩ none [] 0 1 0 0
    (some ⟨[0, 0, 0, 0, 0, 0, 0, 1], rfl⟩) 5 5 64) (keyUnique_invariant.2 _ .empty) rfl⟩

end AddrMgr

end Dibbler
