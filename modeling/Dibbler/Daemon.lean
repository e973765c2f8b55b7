import Dibbler.LeaseView
import Dibbler.Occupancy
import Dibbler.Replay

/-! The store over the daemon's whole life. From the empty store the daemon serves calls of
the mutation API and of the replay counter, and restarts: it dumps the store
(`operator<<`) and the next `TAddrMgr` loads the dump (`dbLoad`). A load of a dump the reader
gives back rebuilds the store normalised (`load_write_of_dumpable`), and normalising only
filters leases, assignments and clients, so the invariants the calls keep survive restarts
too, and a restart leaves the abstract lease map as it was when every delegated prefix passes
the reader's checks. -/

namespace Dibbler

namespace AddrClient

variable {c : AddrClient} (env : LoadEnv)

theorem KeyUnique.normalise (hk : c.KeyUnique) : (c.normalise env).KeyUnique where
  iaids := by
    refine hk.iaids.sublist ?_
    rw [show c.pd.map AddrIA.iaid = (c.pd.map (·.normalise env .pd)).map AddrIA.iaid by
      rw [List.map_map]; rfl]
    exact (List.filter_sublist _).map _
  prefixes pd hpd := by
    obtain ⟨pd, hpd₀, rfl⟩ := List.mem_map.mp (List.mem_filter.mp hpd).1
    exact (hk.prefixes pd hpd₀).sublist ((List.filter_sublist _).map _)

theorem pdsHeld_normalise : (c.normalise env).PDsHeld := fun _ hpd =>
  List.ne_nil_of_length_pos (by simpa using (List.mem_filter.mp hpd).2)

end AddrClient

namespace AddrMgr

variable {m : AddrMgr} (env : LoadEnv)

theorem KeyUnique.normalise (hk : m.KeyUnique) : (m.normalise env).KeyUnique where
  duids := by
    refine hk.duids.sublist ?_
    rw [show m.clients.map AddrClient.duid =
      (m.clients.map (·.normalise env)).map AddrClient.duid by rw [List.map_map]; rfl]
    exact (List.filter_sublist _).map _
  clients c hc := by
    obtain ⟨c, hc₀, rfl⟩ := List.mem_map.mp (List.mem_filter.mp hc).1
    exact (hk.clients c hc₀).normalise env

theorem pdsHeld_normalise : (m.normalise env).PDsHeld := fun c hc => by
  obtain ⟨c, -, rfl⟩ := List.mem_map.mp (List.mem_filter.mp hc).1
  exact AddrClient.pdsHeld_normalise env

/-- The stores the daemon holds from the empty store, with the hooks of `env`: a call of the
mutation API, a call of the replay counter, or a restart that loads at `loadTime` the dump
written at `dumpTime` of a store whose dump the reader gives back. -/
inductive Lived : AddrMgr → Prop
  | empty : Lived empty
  | call {m m' : AddrMgr} (now : UInt64) (c : Call) : Lived m → m.call now c = some m' → Lived m'
  | next {m : AddrMgr} : Lived m → Lived m.getNextReplayDetectionValue.2
  | restart {m m' : AddrMgr} (dumpTime : UInt32) (loadTime : UInt64) : Lived m →
      m.Dumpable env dumpTime → load { env with now := loadTime } (some (m.write dumpTime)) = .ok m' →
      Lived m'

/-- Restarts keep what the calls keep: every store of the daemon's life has distinct client
DUIDs, PD IAIDs within a client and prefixes within a PD, and no empty PD. -/
theorem Lived.keyUnique_pdsHeld (h : m.Lived env) : m.KeyUnique ∧ m.PDsHeld := by
  induction h with
  | empty => exact ⟨⟨List.nodup_nil, nofun⟩, nofun⟩
  | call _ _ _ hstep ih => exact ⟨keyUnique_call ih.1 hstep, pdsHeld_call ih.2 hstep⟩
  | next _ ih => exact ⟨⟨ih.1.duids, ih.1.clients⟩, ih.2⟩
  | restart dumpTime loadTime _ hd hload ih =>
    have reload : ({ env with now := loadTime } : LoadEnv).verifyAddr = env.verifyAddr := rfl
    rw [load_write_of_dumpable hd reload, Except.ok.injEq] at hload
    subst hload
    exact ⟨ih.1.normalise _, pdsHeld_normalise _⟩

end AddrMgr

/-- One prefix delegated from the empty store, then a restart: dumped at 3, loaded at 9. -/
theorem keyUnique_pdsHeld_after_restart :
    let env : LoadEnv := ⟨fun _ => true, fun _ => true, 128, 4, fun _ => ⟨List.replicate 8 0, rfl⟩⟩
    let m := (AddrMgr.empty.addPrefix ⟨[1]⟩ none "eth0".toList 2 1 0 0
      (some ⟨[0x2001, 0xdb8, 0, 0, 0, 0, 0, 0x10], rfl⟩) 5 5 64 7).2
    let m' := m.normalise { env with now := 9 }
    m'.Lived env ∧ m'.KeyUnique ∧ m'.PDsHeld := by
  intro env m m'
  have hd : m.Dumpable env 3 := by
    unfold m env
    decide
  have lived : m'.Lived env :=
    .restart 3 9 (.call 7 (.addPrefix ⟨[1]⟩ none "eth0".toList 2 1 0 0
      (some ⟨[0x2001, 0xdb8, 0, 0, 0, 0, 0, 0x10], rfl⟩) 5 5 64) .empty rfl) hd
      (load_write_of_dumpable hd (by rfl) 3)
  exact ⟨lived, AddrMgr.Lived.keyUnique_pdsHeld env lived⟩

/-- `Lived` restarts only from dumpable stores, and the calls reach others. Two PDs of one
client with IAIDs `2^31` and `2^31 + 1`, both `u32` values: the first restart reads them back
as `2^64 - 2^31` and `2^64 - 2^31 + 1` (`atoi` wraps into an `int`, which is sign-extended);
the second writes those, `strtol` saturates both to `LONG_MAX`, whose low 32 bits are `-1`,
and both come back as `2^64 - 1`, so the client holds two PDs with one IAID. -/
theorem iaid_clash_after_two_restarts :
    let env : LoadEnv := ⟨fun _ => true, fun _ => true, 128, 0, fun _ => ⟨List.replicate 8 0, rfl⟩⟩
    let m := ((AddrMgr.empty.addPrefix ⟨[1]⟩ none "eth0".toList 2 2147483648 0 0
      (some ⟨[0x2001, 0xdb8, 0, 0, 0, 0, 0, 0x10], rfl⟩) 5 5 64 7).2.addPrefix ⟨[1]⟩ none
      "eth0".toList 2 2147483649 0 0 (some ⟨[0x2001, 0xdb8, 0, 0, 0, 0, 0, 0x20], rfl⟩) 5 5 64
      7).2
    m.Lived env ∧ m.KeyUnique ∧
      (AddrMgr.load env (some (m.write 0))).map (·.clients.map (·.pd.map (·.iaid))) =
        .ok [[18446744071562067968, 18446744071562067969]] ∧
      (AddrMgr.load env (some (m.write 0)) >>= fun m₁ => AddrMgr.load env (some (m₁.write 0))).map
        (·.clients.map (·.pd.map (·.iaid))) = .ok [[18446744073709551615, 18446744073709551615]] ∧
      ∀ m₂, (AddrMgr.load env (some (m.write 0)) >>= fun m₁ =>
        AddrMgr.load env (some (m₁.write 0))) = .ok m₂ → ¬m₂.KeyUnique := by
  intro env m
  have lived : m.Lived env :=
    .call 7 (.addPrefix ⟨[1]⟩ none "eth0".toList 2 2147483649 0 0
      (some ⟨[0x2001, 0xdb8, 0, 0, 0, 0, 0, 0x20], rfl⟩) 5 5 64)
      (.call 7 (.addPrefix ⟨[1]⟩ none "eth0".toList 2 2147483648 0 0
        (some ⟨[0x2001, 0xdb8, 0, 0, 0, 0, 0, 0x10], rfl⟩) 5 5 64) .empty rfl) rfl
  have h₁ : (AddrMgr.load env (some (m.write 0))).map (·.clients.map (·.pd.map (·.iaid))) =
      .ok [[18446744071562067968, 18446744071562067969]] := by
    unfold env m
    set_option maxRecDepth 100000 in decide
  have h₂ : (AddrMgr.load env (some (m.write 0)) >>= fun m₁ =>
      AddrMgr.load env (some (m₁.write 0))).map (·.clients.map (·.pd.map (·.iaid))) =
      .ok [[18446744073709551615, 18446744073709551615]] := by
    unfold env m
    set_option maxRecDepth 100000 in decide
  refine ⟨lived, AddrMgr.Lived.keyUnique_pdsHeld env lived |>.1, h₁, h₂, fun m₂ h hk => ?_⟩
  rw [h] at h₂
  have hmem : [18446744073709551615, 18446744073709551615] ∈
      m₂.clients.map (·.pd.map (·.iaid)) := by
    simp only [Except.map, Except.ok.injEq] at h₂
    rw [h₂]
    exact List.mem_singleton_self _
  obtain ⟨c, hc, hcx⟩ := List.mem_map.mp hmem
  have hnd := (hk.clients c hc).iaids
  rw [hcx] at hnd
  exact absurd hnd (by decide)

section Restart

variable {env : LoadEnv}

/-- Dropping elements whose image is empty leaves a `flatMap` as it was. -/
theorem flatMap_filter_of_nil {α β : Type} {p : α → Bool} {f : α → List β} :
    ∀ {l : List α}, (∀ a ∈ l, p a = false → f a = []) → (l.filter p).flatMap f = l.flatMap f
  | [], _ => rfl
  | a :: l, h => by
    have ih := flatMap_filter_of_nil fun b hb => h b (List.mem_cons_of_mem a hb)
    by_cases ha : p a
    · simp [List.filter_cons, ha, ih]
    · simp [List.filter_cons, ha, ih, h a (List.mem_cons_self a l) (by simpa using ha)]

theorem AddrClient.leaseEntries_normalise {c : AddrClient}
    (hr : ∀ pd ∈ c.pd, ∀ a ∈ pd.leases, a.reloads env.verifyPrefix = true) :
    (c.normalise env).leaseEntries = c.leaseEntries := by
  have keep : ∀ pd ∈ c.pd, pdEntries c.duid (pd.normalise env .pd) = pdEntries c.duid pd :=
    fun pd hpd => by
      simp only [pdEntries, AddrIA.normalise, LoadEnv.verify, List.filter_eq_self.mpr (hr pd hpd)]
  simp only [AddrClient.leaseEntries, AddrClient.normalise]
  rw [flatMap_filter_of_nil fun pd _ h => by simpa [pdEntries] using h, List.flatMap_def,
    List.map_map, List.flatMap_def]
  exact congrArg List.flatten (List.map_congr_left keep)

theorem AddrMgr.leaseEntries_normalise {m : AddrMgr}
    (hr : ∀ c ∈ m.clients, ∀ pd ∈ c.pd, ∀ a ∈ pd.leases, a.reloads env.verifyPrefix = true) :
    (m.normalise env).leaseEntries = m.leaseEntries := by
  simp only [AddrMgr.leaseEntries, AddrMgr.normalise]
  rw [flatMap_filter_of_nil fun c _ h => ?_, List.flatMap_def, List.map_map, List.flatMap_def]
  · exact congrArg List.flatten
      (List.map_congr_left fun c hc => AddrClient.leaseEntries_normalise (hr c hc))
  · have empty : c.pd = [] := by simp [AddrClient.count] at h; exact h.2
    simp [AddrClient.leaseEntries, empty]

/-- A restart keeps the abstract lease map of a store whose dump the reader gives back, when
every delegated prefix passes the reader's checks: a nonzero timestamp and lifetimes, and a
prefix the hook accepts. -/
theorem restart_keeps_view {m : AddrMgr} {now : UInt32} (hd : m.Dumpable env now)
    (hr : ∀ c ∈ m.clients, ∀ pd ∈ c.pd, ∀ a ∈ pd.leases, a.reloads env.verifyPrefix = true)
    (t : UInt32) : ∃ m', AddrMgr.load env (some (m.write t)) = .ok m' ∧ m'.view = m.view :=
  ⟨_, load_write_of_dumpable hd rfl t,
    funext fun k => by simp only [AddrMgr.view, AddrMgr.leaseEntries_normalise hr]⟩

end Restart

/-- The store holding one delegated prefix keeps its lease map over a restart. -/
theorem restart_keeps_view_one_prefix :
    let env : LoadEnv := ⟨fun _ => true, fun _ => true, 128, 4, fun _ => ⟨List.replicate 8 0, rfl⟩⟩
    let m := (AddrMgr.empty.addPrefix ⟨[1]⟩ none "eth0".toList 2 1 0 0
      (some ⟨[0x2001, 0xdb8, 0, 0, 0, 0, 0, 0x10], rfl⟩) 5 5 64 7).2
    m.Dumpable env 3 ∧
      (∀ c ∈ m.clients, ∀ pd ∈ c.pd, ∀ a ∈ pd.leases, a.reloads env.verifyPrefix = true) ∧
      ∃ m', AddrMgr.load env (some (m.write 3)) = .ok m' ∧ m'.view = m.view := by
  intro env m
  have hd : m.Dumpable env 3 := by
    unfold m env
    decide
  have hr : ∀ c ∈ m.clients, ∀ pd ∈ c.pd, ∀ a ∈ pd.leases, a.reloads env.verifyPrefix = true := by
    unfold m env
    decide
  exact ⟨hd, hr, restart_keeps_view hd hr 3⟩

end Dibbler
