import Dibbler.LeaseView

/-! The mutation API refines the abstract lease map (spec §4.1, §8). For each call, how the
store's entries change: `addPrefix` appends one entry when its key is fresh, `delPrefix`
removes the entry of its key, `delClient` removes the entries of one DUID, `prefixIsFree`
reads the entries' addresses, `updatePrefix` rewrites the lifetimes of the entry of its key
and `updateInterfacesInfo` leaves the entries alone. On a key-unique store the view then
changes as a finite map does. -/

namespace Dibbler

@[simp] theorem AddrClient.leaseEntries_create (duid : Duid) : (AddrClient.create duid).leaseEntries = [] := rfl

namespace AddrClient
variable {c : AddrClient} {duid : Duid} {addr : Option IPv6Addr} {ifname : List Char}
  {ifindex : BitVec 32} {iaid t1 t2 : UInt64} {p : IPv6Addr} {pref valid : UInt64}
  {length : BitVec 32} {now : UInt64}

theorem addPrefix_leaseEntries :
    List.Perm (c.addPrefix duid addr ifname ifindex iaid t1 t2 p pref valid length now).2.leaseEntries
      (c.leaseEntries ++ if (c.addPrefix duid addr ifname ifindex iaid t1 t2 p pref valid length now).1
        then [(⟨c.duid, iaid, p⟩, ⟨length, pref, valid⟩)] else []) := by
  cases h : firstMatch (·.iaid == iaid) c.pd with
  | none =>
    rw [addPrefix_of_not_found h]
    simp [leaseEntries, pdEntries, AddrIA.addPrefix, AddrIA.create]
  | some r =>
    have hiaid : r.2.iaid = iaid := by simpa using firstMatch_pred h
    rw [addPrefix_of_found h]
    split
    · exact flatMap_set_perm_add (firstMatch_getElem? h) (by simp [pdEntries])
    · exact flatMap_set_perm_add (firstMatch_getElem? h) (by simp [pdEntries, AddrIA.addPrefix, hiaid])

theorem KeyUnique.addPrefix_fst (hk : c.KeyUnique) :
    (c.addPrefix duid addr ifname ifindex iaid t1 t2 p pref valid length now).1 = true ↔
      ∀ v, (⟨c.duid, iaid, p⟩, v) ∉ c.leaseEntries := by
  cases h : firstMatch (·.iaid == iaid) c.pd with
  | none =>
    rw [addPrefix_of_not_found h]
    exact iff_of_true rfl fun v => not_mem_flatMap_of_firstMatch (pdEntries_iaid c.duid) h rfl
  | some r =>
    have hiaid : r.2.iaid = iaid := by simpa using firstMatch_pred h
    have inPd : ∀ v, (⟨c.duid, iaid, p⟩, v) ∈ c.leaseEntries ↔
        ∃ l ∈ r.2.leases, l.addr = p ∧ v = ⟨l.length, l.pref, l.valid⟩ := fun v => by
      rw [leaseEntries, mem_flatMap_of_firstMatch (pdEntries_iaid c.duid) hk.iaids h rfl]
      simp [hiaid, eq_comm]
    rw [addPrefix_of_found h]
    split
    · next _ lease found =>
      have hp : lease.2.addr = p := by simpa using firstMatch_pred found
      simpa [inPd] using ⟨_, lease.2, firstMatch_mem found, hp, rfl⟩
    · next fresh =>
      simp only [true_iff, inPd, not_exists, not_and]
      intro v l hl hp
      simpa [hp] using firstMatch_eq_none.mp fresh l hl
end AddrClient

namespace AddrMgr
variable {m : AddrMgr} {duid : Duid} {addr : Option IPv6Addr} {ifname : List Char}
  {ifindex : BitVec 32} {iaid t1 t2 : UInt64} {p : IPv6Addr} {pref valid : UInt64}
  {length : BitVec 32} {now : UInt64}

theorem addPrefix_leaseEntries :
    List.Perm (m.addPrefix duid addr ifname ifindex iaid t1 t2 (some p) pref valid length now).2.leaseEntries
      (m.leaseEntries ++ if (m.addPrefix duid addr ifname ifindex iaid t1 t2 (some p) pref valid length now).1
        then [(⟨duid, iaid, p⟩, ⟨length, pref, valid⟩)] else []) := by
  cases h : firstMatch (·.duid == duid) m.clients with
  | none =>
    rw [addPrefix_of_not_found h]
    simp only [leaseEntries, addClient_clients, List.flatMap_append, List.flatMap_singleton]
    exact List.Perm.append_left _ (AddrClient.addPrefix_leaseEntries.trans (by simp))
  | some r =>
    have hd : r.2.duid = duid := by simpa using firstMatch_pred h
    rw [addPrefix_of_found h]
    exact flatMap_set_perm_add (firstMatch_getElem? h) (AddrClient.addPrefix_leaseEntries.trans (by rw [hd]))

theorem KeyUnique.addPrefix_fst (hk : m.KeyUnique) :
    (m.addPrefix duid addr ifname ifindex iaid t1 t2 (some p) pref valid length now).1 = true ↔
      ∀ v, (⟨duid, iaid, p⟩, v) ∉ m.leaseEntries := by
  cases h : firstMatch (·.duid == duid) m.clients with
  | none =>
    rw [addPrefix_of_not_found h]
    exact iff_of_true (by rw [AddrClient.addPrefix_of_not_found]; rfl)
      fun v => not_mem_flatMap_of_firstMatch AddrClient.leaseEntries_duid h rfl
  | some r =>
    have hd : r.2.duid = duid := by simpa using firstMatch_pred h
    rw [addPrefix_of_found h, (hk.clients r.2 (firstMatch_mem h)).addPrefix_fst, hd, leaseEntries]
    exact forall_congr' fun v =>
      not_congr (mem_flatMap_of_firstMatch AddrClient.leaseEntries_duid hk.duids h rfl).symm

/-- What `delPrefix` leaves of the client it edits: the PD without the prefix, dropped when
left empty. -/
theorem delPrefix_client_leaseEntries {c : AddrClient} {j : Nat} {pd : AddrIA} {lease : Nat × AddrAddr}
    (hj : firstMatch (·.iaid == iaid) c.pd = some (j, pd))
    (hp : firstMatch (·.addr == p) pd.leases = some lease) :
    List.Perm c.leaseEntries ((⟨c.duid, iaid, p⟩, ⟨lease.2.length, lease.2.pref, lease.2.valid⟩) ::
      (if (pd.delPrefix p).leases.length = 0 then (c.setPD j (pd.delPrefix p)).delPD iaid
        else c.setPD j (pd.delPrefix p)).leaseEntries) := by
  have hiaid : pd.iaid = iaid := by simpa using firstMatch_pred hj
  have hp' : lease.2.addr = p := by simpa using firstMatch_pred hp
  have inPd : List.Perm (pdEntries c.duid pd)
      ((⟨c.duid, iaid, p⟩, ⟨lease.2.length, lease.2.pref, lease.2.valid⟩) ::
        pdEntries c.duid (pd.delPrefix p)) := by
    rw [pdEntries, pdEntries]
    refine ((perm_cons_eraseIdx (firstMatch_getElem? hp)).map _).trans ?_
    simp [firstMatch_eraseIdx hp, hiaid, hp']
  have set : List.Perm c.leaseEntries (_ :: (c.setPD j (pd.delPrefix p)).leaseEntries) :=
    flatMap_set_perm_remove (firstMatch_getElem? hj) inPd
  split
  · next empty =>
    have found := firstMatch_set hj (by simpa using hiaid : ((pd.delPrefix p).iaid == iaid) = true)
    refine set.trans (List.Perm.cons _ ?_)
    have gone := flatMap_eraseIdx_perm (pdEntries c.duid) (firstMatch_getElem? found)
    have none_left : pdEntries c.duid (pd.delPrefix p) = [] := by
      rw [pdEntries, List.length_eq_zero.mp empty, List.map_nil]
    rw [firstMatch_eraseIdx found, none_left, List.nil_append] at gone
    exact gone
  · exact set

/-- Deleting the client the cursor finds removes exactly its entries. -/
theorem delClient_leaseEntries_of_found {i : Nat} {c : AddrClient}
    (h : firstMatch (·.duid == duid) m.clients = some (i, c)) :
    List.Perm m.leaseEntries (c.leaseEntries ++ (m.delClient duid).2.leaseEntries) := by
  simp only [delClient, h]
  exact flatMap_eraseIdx_perm _ (firstMatch_getElem? h)

/-- A successful `delPrefix` removes one entry with its key. -/
theorem delPrefix_leaseEntries (h : (m.delPrefix duid iaid p).1 = true) :
    ∃ v, List.Perm m.leaseEntries ((⟨duid, iaid, p⟩, v) :: (m.delPrefix duid iaid p).2.leaseEntries) := by
  rcases delPrefix_cases m duid iaid p with ⟨hf, -⟩ | ⟨i, c, j, pd, lease, client', hi, hj, hp, hcl, hd⟩
  · simp [hf] at h
  · have hduid : c.duid = duid := by simpa using firstMatch_pred hi
    have client := delPrefix_client_leaseEntries hj hp
    rw [hduid, ← hcl] at client
    have kept := flatMap_set_perm_remove (firstMatch_getElem? hi) client
    refine ⟨⟨lease.2.length, lease.2.pref, lease.2.valid⟩, ?_⟩
    rw [hd]
    split
    · next empty =>
      have same : (client'.duid == duid) = true := by rw [hcl]; split <;> simpa using hduid
      have found : firstMatch (·.duid == duid) (m.setClient i client').clients = some (i, client') :=
        firstMatch_set hi same
      refine kept.trans (List.Perm.cons _ ((delClient_leaseEntries_of_found found).trans ?_))
      rw [AddrClient.leaseEntries, List.length_eq_zero.mp empty.2.2.1]
      exact .refl _
    · exact kept

/-- On a key-unique store the three cursors of `delPrefix` and `updatePrefix` (client by DUID,
PD by IAID, prefix by address) all stop exactly when the key has an entry. -/
theorem KeyUnique.cursors_iff (hk : m.KeyUnique) :
    (∃ i c j pd lease, firstMatch (·.duid == duid) m.clients = some (i, c) ∧
      firstMatch (·.iaid == iaid) c.pd = some (j, pd) ∧
      firstMatch (·.addr == p) pd.leases = some lease) ↔
    ∃ v, (⟨duid, iaid, p⟩, v) ∈ m.leaseEntries := by
  constructor
  · rintro ⟨i, c, j, pd, lease, hi, hj, hp⟩
    refine ⟨⟨lease.2.length, lease.2.pref, lease.2.valid⟩, List.mem_flatMap.mpr
      ⟨c, firstMatch_mem hi, List.mem_flatMap.mpr ⟨pd, firstMatch_mem hj, mem_pdEntries.mpr
        ⟨lease.2, firstMatch_mem hp, ?_⟩⟩⟩⟩
    have hd : c.duid = duid := by simpa using firstMatch_pred hi
    have hiaid : pd.iaid = iaid := by simpa using firstMatch_pred hj
    have ha : lease.2.addr = p := by simpa using firstMatch_pred hp
    rw [hd, hiaid, ha]
  · rintro ⟨v, hv⟩
    obtain ⟨c, hc, hvc⟩ := List.mem_flatMap.mp hv
    obtain ⟨pd, hpd, hvpd⟩ := List.mem_flatMap.mp hvc
    obtain ⟨l, hl, he⟩ := mem_pdEntries.mp hvpd
    simp only [Prod.mk.injEq, LeaseKey.mk.injEq] at he
    obtain ⟨⟨rfl, rfl, rfl⟩, -⟩ := he
    obtain ⟨i, hi⟩ := (firstMatch_key hk.duids c.duid c).mpr ⟨hc, rfl⟩
    obtain ⟨j, hj⟩ := (firstMatch_key (hk.clients c hc).iaids pd.iaid pd).mpr ⟨hpd, rfl⟩
    cases hp : firstMatch (·.addr == l.addr) pd.leases with
    | none => exact absurd (firstMatch_eq_none.mp hp l hl) (by simp)
    | some lease => exact ⟨i, c, j, pd, lease, hi, hj, hp⟩

theorem delPrefix_fst :
    (m.delPrefix duid iaid p).1 = true ↔ ∃ i c j pd lease,
      firstMatch (·.duid == duid) m.clients = some (i, c) ∧
      firstMatch (·.iaid == iaid) c.pd = some (j, pd) ∧
      firstMatch (·.addr == p) pd.leases = some lease := by
  rcases delPrefix_cases m duid iaid p with
    ⟨h, missing⟩ | ⟨i, c, j, pd, lease, _, hi, hj, hp, -, h⟩
  · simp only [h, Bool.false_eq_true, false_iff, not_exists, not_and]
    intro i c j pd lease hi hj hp
    simp [missing i c hi j pd hj] at hp
  · simp only [h, true_iff]
    exact ⟨i, c, j, pd, lease, hi, hj, hp⟩

theorem KeyUnique.delPrefix_mem (hk : m.KeyUnique) (e : LeaseKey × LeaseVal) :
    e ∈ (m.delPrefix duid iaid p).2.leaseEntries ↔ e ∈ m.leaseEntries ∧ e.1 ≠ ⟨duid, iaid, p⟩ := by
  cases h : (m.delPrefix duid iaid p).1
  · have absent : ∀ v, (⟨duid, iaid, p⟩, v) ∉ m.leaseEntries := fun v hv => by
      simpa [h] using delPrefix_fst.mpr (hk.cursors_iff.mpr ⟨v, hv⟩)
    rw [delPrefix_of_false h]
    exact ⟨fun he => ⟨he, fun hkey => absent e.2 (hkey ▸ he)⟩, And.left⟩
  · obtain ⟨v, hv⟩ := delPrefix_leaseEntries h
    have fresh : (⟨duid, iaid, p⟩ : LeaseKey) ∉ (m.delPrefix duid iaid p).2.leaseEntries.map Prod.fst :=
      (List.nodup_cons.mp ((hv.map Prod.fst).nodup_iff.mp hk.keys_nodup)).1
    rw [hv.mem_iff]
    constructor
    · exact fun he => ⟨List.mem_cons_of_mem _ he, fun hkey =>
        fresh (by rw [← hkey]; exact List.mem_map_of_mem Prod.fst he)⟩
    · rintro ⟨he, hne⟩
      rcases List.mem_cons.mp he with rfl | he
      · exact absurd rfl hne
      · exact he

theorem delClient_fst : (m.delClient duid).1 = true ↔ ∃ c ∈ m.clients, c.duid = duid := by
  unfold delClient
  split
  · next missing => simpa using fun c hc => firstMatch_eq_none.mp missing c hc
  · next i c h => exact iff_of_true rfl ⟨c, firstMatch_mem h, by simpa using firstMatch_pred h⟩

theorem KeyUnique.delClient_mem (hk : m.KeyUnique) (e : LeaseKey × LeaseVal) :
    e ∈ (m.delClient duid).2.leaseEntries ↔ e ∈ m.leaseEntries ∧ e.1.duid ≠ duid := by
  cases h : firstMatch (·.duid == duid) m.clients with
  | none =>
    simp only [delClient, h]
    exact ⟨fun he => ⟨he, fun hd =>
      not_mem_flatMap_of_firstMatch AddrClient.leaseEntries_duid h hd he⟩, And.left⟩
  | some r =>
    have split := delClient_leaseEntries_of_found h
    have nd := (split.map Prod.fst).nodup_iff.mp hk.keys_nodup
    rw [List.map_append] at nd
    constructor
    · intro he
      have hm := split.mem_iff.mpr (List.mem_append_right _ he)
      refine ⟨hm, fun hd => ?_⟩
      have hr := (mem_flatMap_of_firstMatch AddrClient.leaseEntries_duid hk.duids h hd).mp hm
      exact List.disjoint_of_nodup_append nd (List.mem_map_of_mem _ hr) (List.mem_map_of_mem _ he)
    · rintro ⟨he, hd⟩
      rcases List.mem_append.mp (split.mem_iff.mp he) with hr | he
      · exact absurd ((r.2.leaseEntries_duid e hr).trans (by simpa using firstMatch_pred h)) hd
      · exact he

theorem prefixIsFree_iff {x : IPv6Addr} : m.prefixIsFree x = true ↔ ∀ e ∈ m.leaseEntries, e.1.addr ≠ x := by
  simp only [leaseEntries, AddrClient.leaseEntries, pdEntries, List.forall_mem_flatMap,
    List.forall_mem_map]
  simp [prefixIsFree]

/-- The mutation API refines the abstract lease map at the store `m`, for all non-null DUID
and prefix arguments (spec §4.1): `addPrefix` (DUID variant) succeeds exactly on a fresh key
and then maps it to the new lease, `delPrefix` succeeds exactly on a present key and removes
it, `delClient` removes the keys of one DUID, and `prefixIsFree` asks whether an address is
among the keys. -/
def RefinesLeaseView (m : AddrMgr) : Prop :=
  (∀ (duid : Duid) (addr : Option IPv6Addr) (ifname : List Char) (ifindex : BitVec 32)
      (iaid t1 t2 : UInt64) (p : IPv6Addr) (pref valid : UInt64) (length : BitVec 32)
      (now : UInt64),
    let r := m.addPrefix duid addr ifname ifindex iaid t1 t2 (some p) pref valid length now
    (r.1 = true ↔ m.view ⟨duid, iaid, p⟩ = none) ∧
      r.2.view = if r.1 then Function.update m.view ⟨duid, iaid, p⟩ (some ⟨length, pref, valid⟩)
        else m.view) ∧
  (∀ (duid : Duid) (iaid : UInt64) (p : IPv6Addr),
    let r := m.delPrefix duid iaid p
    (r.1 = true ↔ m.view ⟨duid, iaid, p⟩ ≠ none) ∧
      r.2.view = Function.update m.view ⟨duid, iaid, p⟩ none) ∧
  (∀ duid : Duid,
    let r := m.delClient duid
    (r.1 = true ↔ ∃ c ∈ m.clients, c.duid = duid) ∧
      r.2.view = fun k => if k.duid = duid then none else m.view k) ∧
  ∀ x : IPv6Addr, m.prefixIsFree x = true ↔ ∀ k, m.view k ≠ none → k.addr ≠ x

theorem KeyUnique.view_eq_none (hk : m.KeyUnique) (k : LeaseKey) :
    m.view k = none ↔ ∀ v, (k, v) ∉ m.leaseEntries := by
  simp only [Option.eq_none_iff_forall_not_mem, Option.mem_def, hk.view_eq_some]

theorem leaseView_refinement (m : AddrMgr) (hk : m.KeyUnique) : m.RefinesLeaseView := by
  refine ⟨fun duid addr ifname ifindex iaid t1 t2 p pref valid length now => ?_,
    fun duid iaid p => ?_, fun duid => ?_, fun x => ?_⟩
  · refine ⟨hk.addPrefix_fst.trans (hk.view_eq_none _).symm,
      (keyUnique_addPrefix hk).view_eq fun k v => ?_⟩
    rw [addPrefix_leaseEntries.mem_iff, List.mem_append]
    split
    · next added =>
      by_cases hkey : k = ⟨duid, iaid, p⟩
      · subst hkey
        have absent := hk.addPrefix_fst.mp added v
        simp [absent, eq_comm]
      · simp [Function.update_noteq hkey, hkey, hk.view_eq_some]
    · simp [hk.view_eq_some]
  · refine ⟨delPrefix_fst.trans (hk.cursors_iff.trans ?_),
      (keyUnique_delPrefix hk p).view_eq fun k v => ?_⟩
    · rw [Ne, hk.view_eq_none]
      simp
    · rw [hk.delPrefix_mem]
      by_cases hkey : k = ⟨duid, iaid, p⟩
      · subst hkey
        simp
      · simp [Function.update_noteq hkey, hkey, hk.view_eq_some]
  · refine ⟨delClient_fst, (keyUnique_delClient hk duid).view_eq fun k v => ?_⟩
    rw [hk.delClient_mem]
    split_ifs with hd <;> simp [hd, hk.view_eq_some]
  · rw [prefixIsFree_iff]
    simp only [Ne, hk.view_eq_none, not_forall, not_not]
    constructor
    · rintro h k ⟨v, hv⟩
      exact h (k, v) hv
    · intro h e he
      exact h e.1 ⟨e.2, he⟩

/-- Two clients, each with a PD holding one prefix, built from the empty store by `addPrefix`:
the store is key-unique, so it refines the lease map. -/
theorem leaseView_refinement_two_clients :
    let m := ((empty.addPrefix ⟨[1]⟩ none [] 0 1 0 0
      (some ⟨[0x2001, 0xdb8, 0, 0, 0, 0, 0, 0x10], rfl⟩) 5 5 64 0).2.addPrefix ⟨[2]⟩ none [] 0 2 0 0
      (some ⟨[0x2001, 0xdb8, 0, 0, 0, 0, 0, 0x20], rfl⟩) 5 5 64 0).2
    m.clients.length = 2 ∧ (m.clients.map (·.pd.length)) = [1, 1] ∧ m.KeyUnique ∧
      m.RefinesLeaseView := by
  intro m
  have hk : m.KeyUnique :=
    keyUnique_addPrefix (keyUnique_addPrefix ⟨List.nodup_nil, by simp [empty]⟩)
  exact ⟨by decide, by decide, hk, leaseView_refinement m hk⟩

/-- `updatePrefix` with `pref = 1` and `valid = 2` on a store holding the prefix reports
success and leaves the lease with valid lifetime 1. -/
theorem updatePrefix_valid_takes_pref :
    let lo : IPv6Addr := ⟨[0, 0, 0, 0, 0, 0, 0, 1], rfl⟩
    let m := (empty.addPrefix ⟨[1]⟩ none [] 0 1 0 0 (some lo) 5 5 64 0).2
    (m.updatePrefix ⟨[1]⟩ 1 0 0 (some lo) 1 2 7).map (fun r => (r.1, r.2.view ⟨⟨[1]⟩, 1, lo⟩)) =
      some (true, some ⟨64, 1, 1⟩) := by
  decide

end AddrMgr

/-- Overwriting the item at a cursor position, as a permutation. -/
theorem perm_set_append {α : Type} {l : List α} {k : Nat} {x y : α} (hx : l[k]? = some x) :
    List.Perm (l.set k y ++ [x]) (l ++ [y]) := by
  simpa only [List.flatMap_singleton'] using
    flatMap_set_perm (fun a => [a]) [y] [x] hx List.perm_append_comm

namespace AddrClient

variable {c : AddrClient} {iaid t1 t2 : UInt64} {p : IPv6Addr} {pref valid now : UInt64}

/-- A failed `updatePrefix` refreshes at most a PD's timers, which no entry reads. -/
theorem updatePrefix_leaseEntries_of_false
    (h : (c.updatePrefix iaid t1 t2 p pref valid now).1 = false) :
    (c.updatePrefix iaid t1 t2 p pref valid now).2.leaseEntries = c.leaseEntries := by
  cases h₁ : firstMatch (·.iaid == iaid) c.pd with
  | none => rw [updatePrefix_of_not_found h₁]
  | some r =>
    rw [updatePrefix_of_found h₁] at h ⊢
    cases h₂ : firstMatch (·.addr == p) r.2.leases with
    | some _ => simp [h₂] at h
    | none =>
      simp only [leaseEntries, setPD_pd, setPD_duid, List.flatMap_def]
      exact congrArg List.flatten (map_set_of_key (firstMatch_getElem? h₁) (by rfl))

/-- A successful `updatePrefix` gives the entry of its key the lifetimes `pref` and `pref`. -/
theorem updatePrefix_leaseEntries (h : (c.updatePrefix iaid t1 t2 p pref valid now).1 = true) :
    ∃ v, (⟨c.duid, iaid, p⟩, v) ∈ c.leaseEntries ∧
      List.Perm ((c.updatePrefix iaid t1 t2 p pref valid now).2.leaseEntries ++
          [(⟨c.duid, iaid, p⟩, v)])
        (c.leaseEntries ++ [(⟨c.duid, iaid, p⟩, ⟨v.length, pref, pref⟩)]) := by
  cases h₁ : firstMatch (·.iaid == iaid) c.pd with
  | none => simp [updatePrefix_of_not_found h₁] at h
  | some r =>
    obtain ⟨j, pd⟩ := r
    have hiaid : pd.iaid = iaid := by simpa using firstMatch_pred h₁
    rw [updatePrefix_of_found h₁] at h ⊢
    cases h₂ : firstMatch (·.addr == p) pd.leases with
    | none => simp [h₂] at h
    | some r =>
      obtain ⟨k, lease⟩ := r
      have hp : lease.addr = p := by simpa using firstMatch_pred h₂
      refine ⟨⟨lease.length, lease.pref, lease.valid⟩, List.mem_flatMap.mpr
        ⟨pd, firstMatch_mem h₁, mem_pdEntries.mpr ⟨lease, firstMatch_mem h₂, by rw [hiaid, hp]⟩⟩,
        ?_⟩
      refine flatMap_set_perm _ _ _ (firstMatch_getElem? h₁) ?_
      simp only [pdEntries, List.map_set]
      rw [← hiaid, ← hp]
      exact perm_set_append (by simp [firstMatch_getElem? h₂])

theorem updatePrefix_fst : (c.updatePrefix iaid t1 t2 p pref valid now).1 = true ↔
    ∃ j pd lease, firstMatch (·.iaid == iaid) c.pd = some (j, pd) ∧
      firstMatch (·.addr == p) pd.leases = some lease := by
  cases h₁ : firstMatch (·.iaid == iaid) c.pd with
  | none => simp [updatePrefix_of_not_found h₁]
  | some r =>
    obtain ⟨j, pd⟩ := r
    rw [updatePrefix_of_found h₁]
    cases h₂ : firstMatch (·.addr == p) pd.leases with
    | none =>
      refine iff_of_false Bool.false_ne_true ?_
      rintro ⟨_, _, _, h, h'⟩
      cases h
      simp [h₂] at h'
    | some l => exact iff_of_true rfl ⟨j, pd, l, rfl, h₂⟩

theorem updateInterfacesInfo_leaseEntries (nameToIndex : List Char → Option (BitVec 32))
    (indexToName : BitVec 32 → Option (List Char)) (c : AddrClient) :
    (c.updateInterfacesInfo (updateInterfacesInfoIA nameToIndex indexToName)).2.leaseEntries =
      c.leaseEntries := by
  have keep := updateEach_map (f := updateInterfacesInfoIA nameToIndex indexToName)
      (g := pdEntries c.duid) fun ia => by
    simp only [pdEntries, updateInterfacesInfoIA_iaid, updateInterfacesInfoIA_leases]
  unfold AddrClient.updateInterfacesInfo
  split
  · rfl
  · split
    · rfl
    · simp only [leaseEntries, List.flatMap_def, keep c.pd]

end AddrClient

namespace AddrMgr

variable {m m' : AddrMgr} {duid : Duid} {addr : Option IPv6Addr} {ifname : List Char}
  {ifindex : BitVec 32} {iaid t1 t2 : UInt64} {p : IPv6Addr} {pref valid : UInt64}
  {length : BitVec 32} {now : UInt64}

/-- Reconciling interface names and indices, even when it stops at an assignment it cannot
reconcile, leaves every lease entry in place. -/
theorem updateInterfacesInfo_view (nameToIndex : List Char → Option (BitVec 32))
    (indexToName : BitVec 32 → Option (List Char)) (m : AddrMgr) :
    (m.updateInterfacesInfo nameToIndex indexToName).2.view = m.view := by
  have keep := updateEach_map (g := AddrClient.leaseEntries)
    (AddrClient.updateInterfacesInfo_leaseEntries nameToIndex indexToName) m.clients
  have same : (m.updateInterfacesInfo nameToIndex indexToName).2.leaseEntries = m.leaseEntries := by
    simp only [leaseEntries, updateInterfacesInfo, List.flatMap_def, keep]
  funext k
  simp only [view, same]

/-- On key-unique stores, a store whose entries are another's with the entry of one key
replaced views as the other with that key updated. -/
theorem KeyUnique.view_of_replace (hk : m.KeyUnique) (hk' : m'.KeyUnique) {k : LeaseKey}
    {v v' : LeaseVal} (hv : (k, v) ∈ m.leaseEntries)
    (h : List.Perm (m'.leaseEntries ++ [(k, v)]) (m.leaseEntries ++ [(k, v')])) :
    m'.view = Function.update m.view k (some v') := by
  have hmem : ∀ e,
      e ∈ m'.leaseEntries ∨ e = (k, v) ↔ e ∈ m.leaseEntries ∨ e = (k, v') :=
    fun e => by simpa using h.mem_iff (a := e)
  have hnew : (k, v') ∈ m'.leaseEntries := by
    rcases (hmem (k, v')).mpr (.inr rfl) with h' | h'
    · exact h'
    · cases h'
      exact ((List.perm_append_right_iff _).mp h).mem_iff.mpr hv
  refine hk'.view_eq fun k' w => ?_
  by_cases hkk : k' = k
  · subst hkk
    rw [Function.update_same, ← hk'.view_eq_some, (hk'.view_eq_some _ _).mpr hnew]
  · rw [Function.update_noteq hkk, hk.view_eq_some]
    simpa [hkk] using hmem (k', w)

/-- `updatePrefix` (DUID variant) with a prefix refines the abstract lease map on a key-unique
store: it succeeds exactly on a key that has an entry, and then sets both lifetimes of that
entry to `pref`, keeping its length; `valid` is never stored. -/
theorem KeyUnique.updatePrefix_view (hk : m.KeyUnique) (duid : Duid) (iaid t1 t2 : UInt64)
    (p : IPv6Addr) (pref valid now : UInt64) :
    ∃ r, m.updatePrefix duid iaid t1 t2 (some p) pref valid now = some r ∧
      (r.1 = true ↔ m.view ⟨duid, iaid, p⟩ ≠ none) ∧
      r.2.view = Function.update m.view ⟨duid, iaid, p⟩
        ((m.view ⟨duid, iaid, p⟩).map fun v => ⟨v.length, pref, pref⟩) := by
  have present :
      (∃ v, (⟨duid, iaid, p⟩, v) ∈ m.leaseEntries) ↔ m.view ⟨duid, iaid, p⟩ ≠ none := by
    rw [Ne, hk.view_eq_none]; simp
  cases h : firstMatch (·.duid == duid) m.clients with
  | none =>
    have absent : m.view ⟨duid, iaid, p⟩ = none := by
      rw [hk.view_eq_none]
      exact fun v => not_mem_flatMap_of_firstMatch AddrClient.leaseEntries_duid h rfl
    refine ⟨_, updatePrefix_some_of_not_found h, by simp [absent], ?_⟩
    rw [absent, Option.map_none', ← absent, Function.update_eq_self]
  | some r =>
    obtain ⟨i, c⟩ := r
    have hd : c.duid = duid := by simpa using firstMatch_pred h
    have hi := firstMatch_getElem? h
    have fst : (c.updatePrefix iaid t1 t2 p pref valid now).1 = true ↔
        ∃ v, (⟨duid, iaid, p⟩, v) ∈ m.leaseEntries := by
      refine AddrClient.updatePrefix_fst.trans (Iff.trans ?_ hk.cursors_iff)
      constructor
      · rintro ⟨j, pd, lease, hj, hl⟩
        exact ⟨i, c, j, pd, lease, h, hj, hl⟩
      · rintro ⟨i', c', j, pd, lease, h', hj, hl⟩
        obtain ⟨-, rfl⟩ : i = i' ∧ c = c' := by simpa [h] using h'
        exact ⟨j, pd, lease, hj, hl⟩
    refine ⟨_, updatePrefix_some_of_found h, fst.trans present, ?_⟩
    cases hb : (c.updatePrefix iaid t1 t2 p pref valid now).1
    · have absent : m.view ⟨duid, iaid, p⟩ = none := by
        simpa [hb] using mt present.mpr (mt fst.mpr (by simp [hb]))
      have same : (m.setClient i (c.updatePrefix iaid t1 t2 p pref valid now).2).leaseEntries =
          m.leaseEntries := by
        simp only [leaseEntries, setClient_clients, List.flatMap_def]
        rw [map_set_of_key hi (AddrClient.updatePrefix_leaseEntries_of_false hb)]
      rw [absent, Option.map_none', ← absent, Function.update_eq_self]
      funext k
      simp only [view, same]
    · obtain ⟨v, hv, hperm⟩ := AddrClient.updatePrefix_leaseEntries hb
      rw [hd] at hv hperm
      have hvm : (⟨duid, iaid, p⟩, v) ∈ m.leaseEntries :=
        List.mem_flatMap.mpr ⟨c, firstMatch_mem h, hv⟩
      rw [(hk.view_eq_some _ _).mpr hvm, Option.map_some']
      exact hk.view_of_replace
        (keyUnique_updatePrefix hk (updatePrefix_some_of_found h)) hvm
        (flatMap_set_perm _ _ _ hi hperm)

/-- The store holding one prefix is key-unique, and an update of that prefix with `pref = 1`
and `valid = 2` follows the law. -/
theorem updatePrefix_view_one_prefix :
    let lo : IPv6Addr := ⟨[0, 0, 0, 0, 0, 0, 0, 1], rfl⟩
    let m := (empty.addPrefix ⟨[1]⟩ none [] 0 1 0 0 (some lo) 5 5 64 0).2
    m.KeyUnique ∧ ∃ r, m.updatePrefix ⟨[1]⟩ 1 0 0 (some lo) 1 2 7 = some r ∧
      (r.1 = true ↔ m.view ⟨⟨[1]⟩, 1, lo⟩ ≠ none) ∧
      r.2.view = Function.update m.view ⟨⟨[1]⟩, 1, lo⟩
        ((m.view ⟨⟨[1]⟩, 1, lo⟩).map fun v => ⟨v.length, 1, 1⟩) :=
  have hk : (empty.addPrefix ⟨[1]⟩ none [] 0 1 0 0
      (some ⟨[0, 0, 0, 0, 0, 0, 0, 1], rfl⟩) 5 5 64 0).2.KeyUnique :=
    keyUnique_addPrefix ⟨List.nodup_nil, by simp [empty]⟩
  ⟨hk, KeyUnique.updatePrefix_view hk _ _ _ _ _ _ _ _⟩

/-- `addPrefix` with a prefix fails only on a PD that already holds it. -/
theorem prefixIsFree_of_addPrefix_false
    (h : (m.addPrefix duid addr ifname ifindex iaid t1 t2 (some p) pref valid length now).1 =
      false) :
    m.prefixIsFree p = false := by
  cases hc : firstMatch (·.duid == duid) m.clients with
  | none =>
    rw [addPrefix_of_not_found hc, AddrClient.addPrefix_of_not_found (c := .create duid) rfl] at h
    cases h
  | some r =>
    rw [addPrefix_of_found hc] at h
    cases hj : firstMatch (·.iaid == iaid) r.2.pd with
    | none => rw [AddrClient.addPrefix_of_not_found hj] at h; cases h
    | some s =>
      rw [AddrClient.addPrefix_of_found hj] at h
      cases hp : firstMatch (·.addr == p) s.2.leases with
      | none => simp [hp] at h
      | some l =>
        rw [Bool.eq_false_iff, Ne, prefixIsFree_iff]
        intro hfree
        refine hfree _ (List.mem_flatMap.mpr ⟨r.2, firstMatch_mem hc, List.mem_flatMap.mpr
          ⟨s.2, firstMatch_mem hj, mem_pdEntries.mpr ⟨l.2, firstMatch_mem hp, rfl⟩⟩⟩) ?_
        simpa using firstMatch_pred hp

/-- `prefixIsFree` is the guard `addPrefix` needs: a prefix it reports free is always added,
and once `addPrefix` has run on a prefix, whether it succeeded or found the prefix already
in the PD, the prefix is not free. -/
theorem prefixIsFree_addPrefix (m : AddrMgr) (duid : Duid) (addr : Option IPv6Addr)
    (ifname : List Char) (ifindex : BitVec 32) (iaid t1 t2 : UInt64) (p : IPv6Addr)
    (pref valid : UInt64) (length : BitVec 32) (now : UInt64) :
    (m.prefixIsFree p = true →
      (m.addPrefix duid addr ifname ifindex iaid t1 t2 (some p) pref valid length now).1 = true) ∧
    (m.addPrefix duid addr ifname ifindex iaid t1 t2 (some p) pref valid length now).2.prefixIsFree p =
      false := by
  have hperm :=
    @addPrefix_leaseEntries m duid addr ifname ifindex iaid t1 t2 p pref valid length now
  refine ⟨fun hfree => ?_, ?_⟩
  · cases hb : (m.addPrefix duid addr ifname ifindex iaid t1 t2 (some p) pref valid length now).1
    · simp [prefixIsFree_of_addPrefix_false hb] at hfree
    · rfl
  · rw [Bool.eq_false_iff, Ne, prefixIsFree_iff]
    intro hfree
    cases hb : (m.addPrefix duid addr ifname ifindex iaid t1 t2 (some p) pref valid length now).1
    · have used := prefixIsFree_of_addPrefix_false hb
      rw [Bool.eq_false_iff, Ne, prefixIsFree_iff] at used
      push_neg at used
      obtain ⟨e, he, hp⟩ := used
      exact hfree e (hperm.mem_iff.mpr (by simp [hb, he])) hp
    · exact hfree (⟨duid, iaid, p⟩, ⟨length, pref, valid⟩) (hperm.mem_iff.mpr (by simp [hb]))
        rfl

/-- From the empty store: the prefix is free, `addPrefix` adds it, and then it is not. -/
theorem prefixIsFree_addPrefix_empty :
    let lo : IPv6Addr := ⟨[0, 0, 0, 0, 0, 0, 0, 1], rfl⟩
    empty.prefixIsFree lo = true ∧
      (empty.addPrefix ⟨[1]⟩ none [] 0 1 0 0 (some lo) 5 5 64 0).1 = true ∧
      (empty.addPrefix ⟨[1]⟩ none [] 0 1 0 0 (some lo) 5 5 64 0).2.prefixIsFree lo = false :=
  have h := prefixIsFree_addPrefix empty ⟨[1]⟩ none [] 0 1 0 0 ⟨[0, 0, 0, 0, 0, 0, 0, 1], rfl⟩
    5 5 64 0
  ⟨rfl, h.1 rfl, h.2⟩

end AddrMgr

end Dibbler
