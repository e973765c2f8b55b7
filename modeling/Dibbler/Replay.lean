import Dibbler.CounterLine

/-! The replay-detection counter over the daemon's life. `getNextReplayDetectionValue`
pre-increments `ReplayDetectionValue_`; a restart dumps the manager with `operator<<` and
constructs a fresh `TAddrMgr` from the file, which `xmlLoadBuiltIn` reads back. A run is a list
of such events from a manager. From a manager none of whose names holds `<replayDetection>`,
each load that does not fault restores the counter the dump wrote, so the calls of a run that
does not fault return the counter's successors one by one, as long as they stay below `2^64`;
past that the `uint64_t` wraps to 0. From a manager whose dump the reader gives back
(`Dumpable`), no load faults. Restarts compose: a second restart with the same hooks drops
nothing the first kept. -/

namespace Dibbler

theorem AddrIA.lines_normalise (env : LoadEnv) (kind : AssignmentKind) (ia : AddrIA) :
    (ia.normalise env kind).lines kind =
      ia.openLine kind :: element 6 "duid" ia.duid.plain ::
        ((if kind = .ia then ia.fqdnLines else []) ++
          (ia.leases.filter (·.reloads (env.verify kind))).map (AddrAddr.line kind) ++
          [kind.closeLine]) := by
  cases kind <;> rfl

theorem AddrIA.lines_normalise_sublist (env : LoadEnv) (kind : AssignmentKind) (ia : AddrIA) :
    ((ia.normalise env kind).lines kind).Sublist (ia.lines kind) := by
  rw [lines_normalise]
  exact .cons₂ _ <| .cons₂ _ <|
    ((List.Sublist.refl _).append ((List.filter_sublist _).map _)).append (.refl _)

theorem flatMap_normalise_subset (env : LoadEnv) (kind : AssignmentKind) (l : List AddrIA) :
    ((l.map (·.normalise env kind)).filter (0 < ·.leases.length)).flatMap (AddrIA.lines kind) ⊆
      l.flatMap (AddrIA.lines kind) := by
  intro line h
  simp only [List.mem_flatMap, List.mem_filter, List.mem_map] at h ⊢
  obtain ⟨_, ⟨⟨ia, hia, rfl⟩, -⟩, hl⟩ := h
  exact ⟨ia, hia, (AddrIA.lines_normalise_sublist env kind ia).subset hl⟩

theorem AddrClient.lines_normalise_subset (env : LoadEnv) (c : AddrClient) :
    (c.normalise env).lines ⊆ c.lines := by
  refine List.cons_subset_cons _ (List.cons_subset_cons _ fun line h => ?_)
  simp only [AddrClient.normalise, List.flatMap_nil, List.append_nil, List.mem_append] at h ⊢
  rcases h with ((h | h) | h) | h
  · exact .inl (.inl (.inl (.inl h)))
  · exact .inl (.inl (.inl (.inr (flatMap_normalise_subset env .ia c.ia h))))
  · exact .inl (.inr (flatMap_normalise_subset env .pd c.pd h))
  · exact .inr h

section Reload

variable {env env' : LoadEnv} (hv : env'.verifyAddr = env.verifyAddr)
include hv

theorem AddrIA.Dumpable.of_verifyAddr {kind : AssignmentKind} {ia : AddrIA}
    (hd : ia.Dumpable env kind) : ia.Dumpable env' kind :=
  { hd with unicast := hv ▸ hd.unicast }

theorem AddrIA.Dumpable.normalise {kind : AssignmentKind} {ia : AddrIA}
    (hd : ia.Dumpable env kind) : (ia.normalise env' kind).Dumpable env kind where
  name := hd.name
  t1 := hd.t1
  t2 := hd.t2
  iaid := hd.iaid
  fqdn f hf := by
    simp only [AddrIA.normalise] at hf
    split at hf
    · cases hf
    · exact hd.fqdn f hf
  leases a ha := hd.leases a (List.mem_filter.mp ha).1
  unicast h := by
    obtain ⟨rfl, hpos⟩ := hd.unicast h
    refine ⟨rfl, ?_⟩
    simpa only [AddrIA.normalise, LoadEnv.verify, hv, List.filter_filter, Bool.and_self] using hpos

theorem AddrMgr.Dumpable.transfer {now : UInt32} {m m' : AddrMgr} (hd : m.Dumpable env now)
    (hc : m'.clients = m.clients) (now' : UInt32) : m'.Dumpable env' now' where
  short :=
    (AddrMgr.short_lines_iff m' now').mpr (hc ▸ (AddrMgr.short_lines_iff m now).mp hd.short)
  noTA := hc ▸ hd.noTA
  ia c hc' ia hia := (hd.ia c (hc ▸ hc') ia hia).of_verifyAddr hv
  pd c hc' pd hpd := (hd.pd c (hc ▸ hc') pd hpd).of_verifyAddr hv

/-- The manager a load rebuilds from a dumpable manager is dumpable again, at any time, for a
load with the same address hook. -/
theorem AddrMgr.Dumpable.normalise {now : UInt32} {m : AddrMgr} (hd : m.Dumpable env now)
    (now' : UInt32) : (m.normalise env').Dumpable env now' where
  short := (AddrMgr.short_lines_iff _ now').mpr fun c hc line hl => by
    obtain ⟨c, hc₀, rfl⟩ := List.mem_map.mp (List.mem_filter.mp hc).1
    exact (AddrMgr.short_lines_iff m now).mp hd.short c hc₀ line
      (c.lines_normalise_subset env' hl)
  noTA c hc := by
    obtain ⟨c, -, rfl⟩ := List.mem_map.mp (List.mem_filter.mp hc).1
    rfl
  ia c hc ia hia := by
    obtain ⟨c, hc₀, rfl⟩ := List.mem_map.mp (List.mem_filter.mp hc).1
    obtain ⟨ia, hia₀, rfl⟩ := List.mem_map.mp (List.mem_filter.mp hia).1
    exact (hd.ia c hc₀ ia hia₀).normalise hv
  pd c hc pd hpd := by
    obtain ⟨c, hc₀, rfl⟩ := List.mem_map.mp (List.mem_filter.mp hc).1
    obtain ⟨pd, hpd₀, rfl⟩ := List.mem_map.mp (List.mem_filter.mp hpd).1
    exact (hd.pd c hc₀ pd hpd₀).normalise hv

end Reload

section Restart

variable {env env' : LoadEnv} {m : AddrMgr} {now : UInt32}

/-- A dump loaded with the same address hook rebuilds the manager normalised, whatever the
dump's time. -/
theorem load_write_of_dumpable (hd : m.Dumpable env now) (hv : env'.verifyAddr = env.verifyAddr)
    (t : UInt32) : AddrMgr.load env' (some (m.write t)) = .ok (m.normalise env') := by
  obtain ⟨b, hb⟩ := xmlLoadBuiltIn_write (hd.transfer hv (by rfl) t) AddrMgr.empty
  simp only [AddrMgr.load, hb]
  rfl

theorem filter_map_filter_map {α : Type} {f g : α → α} {p : α → Bool}
    (hg : ∀ a, g (f a) = g a) (hp : ∀ a, p (g a) = p (f a)) :
    ∀ l : List α, (((l.map f).filter p).map g).filter p = (l.map g).filter p
  | [] => rfl
  | a :: l => by
    have ih := filter_map_filter_map hg hp l
    by_cases ha : p (f a) <;> simp [List.filter_cons, ha, hg, hp, ih]

variable (hv : env'.verifyAddr = env.verifyAddr) (hp : env'.verifyPrefix = env.verifyPrefix)
include hv hp

theorem LoadEnv.verify_eq (kind : AssignmentKind) : env'.verify kind = env.verify kind := by
  cases kind <;> simp [LoadEnv.verify, hv, hp]

theorem AddrIA.normalise_leases (kind : AssignmentKind) (ia : AddrIA) :
    (ia.normalise env' kind).leases = (ia.normalise env kind).leases := by
  simp only [AddrIA.normalise, LoadEnv.verify_eq hv hp]

theorem AddrIA.normalise_normalise (kind : AssignmentKind) (ia : AddrIA) :
    (ia.normalise env kind).normalise env' kind = ia.normalise env' kind := by
  simp only [AddrIA.normalise, LoadEnv.verify_eq hv hp, List.filter_filter, Bool.and_self]
  split_ifs <;> rfl

theorem AddrClient.count_normalise (c : AddrClient) :
    (c.normalise env').count = (c.normalise env).count := by
  simp only [AddrClient.count, AddrClient.normalise, List.filter_map, Function.comp_def,
    AddrIA.normalise_leases hv hp, List.length_map]

theorem AddrClient.normalise_normalise (c : AddrClient) :
    (c.normalise env).normalise env' = c.normalise env' := by
  have keep : ∀ kind, ∀ ia : AddrIA, decide (0 < (ia.normalise env' kind).leases.length) =
      decide (0 < (ia.normalise env kind).leases.length) := fun kind ia => by
    rw [AddrIA.normalise_leases hv hp]
  simp only [AddrClient.normalise, AddrClient.mk.injEq, true_and]
  exact ⟨filter_map_filter_map (AddrIA.normalise_normalise hv hp .ia) (keep .ia) c.ia,
    filter_map_filter_map (AddrIA.normalise_normalise hv hp .pd) (keep .pd) c.pd⟩

theorem AddrMgr.normalise_normalise (m : AddrMgr) :
    (m.normalise env).normalise env' = m.normalise env' := by
  simp only [AddrMgr.normalise, AddrMgr.mk.injEq, and_true]
  exact filter_map_filter_map (AddrClient.normalise_normalise hv hp)
    (fun c => by rw [AddrClient.count_normalise hv hp]) m.clients

/-- Restarts compose: a store dumped and reloaded twice, with the same hooks, is the store that
one dump and a reload at the second load's time give. The second restart drops nothing. -/
theorem restart_twice (hd : m.Dumpable env now) (t t' : UInt32) :
    (AddrMgr.load env (some (m.write t)) >>= fun m₁ => AddrMgr.load env' (some (m₁.write t'))) =
      AddrMgr.load env' (some (m.write t)) := by
  rw [load_write_of_dumpable hd rfl, ok_bind, load_write_of_dumpable (hd.normalise (by rfl) now) hv,
    load_write_of_dumpable hd hv, AddrMgr.normalise_normalise hv hp]

end Restart

theorem restart_twice_one_prefix :
    let m := (AddrMgr.empty.addPrefix ⟨[1]⟩ none "eth0".toList 2 1 0 0
      (some ⟨[0x2001, 0xdb8, 0, 0, 0, 0, 0, 0x10], rfl⟩) 5 5 64 7).2
    let env : LoadEnv := ⟨fun _ => true, fun _ => true, 128, 4, fun _ => ⟨List.replicate 8 0, rfl⟩⟩
    let env' : LoadEnv := { env with now := 9 }
    env'.verifyAddr = env.verifyAddr ∧ env'.verifyPrefix = env.verifyPrefix ∧ m.Dumpable env 0 ∧
      (AddrMgr.load env (some (m.write 3)) >>= fun m₁ => AddrMgr.load env' (some (m₁.write 8))) =
        AddrMgr.load env' (some (m.write 3)) := by
  intro m env env'
  have hd : m.Dumpable env 0 := by
    unfold m env
    decide
  exact ⟨rfl, rfl, hd, restart_twice (by rfl) (by rfl) hd 3 8⟩

/-- What the replay counter sees of the daemon's life. -/
inductive ReplayEvent where
  /-- A call of `getNextReplayDetectionValue`. -/
  | next
  /-- A dump at `dumpTime` (`operator<<`), then a restart that constructs a fresh `TAddrMgr`
  from the file (`loadfile = true`) at `loadTime`. -/
  | restart (dumpTime : UInt32) (loadTime : UInt64)
  deriving DecidableEq, Repr

def ReplayEvent.calls : List ReplayEvent → Nat
  | [] => 0
  | next :: evs => calls evs + 1
  | restart _ _ :: evs => calls evs

/-- The values the counter calls of a run return, from the manager `m`. Each restart loads
with the hooks of `env` at its own time; a load that faults ends the run. -/
def replayRun (env : LoadEnv) : AddrMgr → List ReplayEvent → Except Fault (List UInt64)
  | _, [] => pure []
  | m, .next :: evs =>
    let (v, m) := m.getNextReplayDetectionValue
    (v :: ·) <$> replayRun env m evs
  | m, .restart dumpTime loadTime :: evs => do
    let m ← AddrMgr.load { env with now := loadTime } (some (m.write dumpTime))
    replayRun env m evs

section Run

variable {env : LoadEnv} {m : AddrMgr} {now : UInt32} {evs : List ReplayEvent}

theorem toNat_add_one {x : UInt64} (h : x.toNat + 1 < 2 ^ 64) : (x + 1).toNat = x.toNat + 1 :=
  (show (x + 1).toNat = (x.toNat + 1) % 2 ^ 64 from rfl).trans (Nat.mod_eq_of_lt h)

theorem replayRun_next :
    replayRun env m (.next :: evs) = ((m.replayDetectionValue + 1) :: ·) <$>
      replayRun env { m with replayDetectionValue := m.replayDetectionValue + 1 } evs :=
  rfl

theorem replayRun_restart (hd : m.Dumpable env now) (dumpTime : UInt32) (loadTime : UInt64) :
    replayRun env m (.restart dumpTime loadTime :: evs) =
      replayRun env (m.normalise { env with now := loadTime }) evs := by
  have reload : ({ env with now := loadTime } : LoadEnv).verifyAddr = env.verifyAddr := rfl
  simp only [replayRun, load_write_of_dumpable hd reload dumpTime]
  rfl

/-- Over a run from a dumpable manager in which the counter stays below `2^64`, the calls
return the counter's successors one by one: a dump writes the counter and the load restores
it. -/
theorem replayRun_successors :
    ∀ (evs : List ReplayEvent) (m : AddrMgr) (now : UInt32), m.Dumpable env now →
      m.replayDetectionValue.toNat + ReplayEvent.calls evs < 2 ^ 64 →
      ∃ vs, replayRun env m evs = .ok vs ∧ vs.map UInt64.toNat =
        List.range' (m.replayDetectionValue.toNat + 1) (ReplayEvent.calls evs)
  | [], _, _, _, _ => ⟨[], rfl, rfl⟩
  | .next :: evs, m, now, hd, hk => by
    simp only [ReplayEvent.calls] at hk
    have hsucc := toNat_add_one (x := m.replayDetectionValue) (by omega)
    obtain ⟨vs, hrun, hvs⟩ := replayRun_successors evs
      { m with replayDetectionValue := m.replayDetectionValue + 1 } now
      (hd.transfer (by rfl) (by rfl) now) (by simp only [hsucc]; omega)
    refine ⟨_ :: vs, by rw [replayRun_next, hrun]; rfl, ?_⟩
    rw [List.map_cons, hvs, ReplayEvent.calls, List.range'_succ]
    simp only [hsucc]
  | .restart d t :: evs, m, now, hd, hk => by
    rw [replayRun_restart hd]
    exact replayRun_successors evs _ now (hd.normalise (by rfl) now) hk

/-- Over a run from a store none of whose names holds the counter's tag, in which the counter
stays below `2^64`, the calls of a run that does not fault return the counter's successors:
each call adds one, and each reload restores the counter the dump wrote. -/
theorem replayRun_of_tagFree :
    ∀ (evs : List ReplayEvent) (m : AddrMgr) (vs : List UInt64), m.TagFree →
      replayRun env m evs = .ok vs →
      m.replayDetectionValue.toNat + ReplayEvent.calls evs < 2 ^ 64 →
      vs.map UInt64.toNat =
        List.range' (m.replayDetectionValue.toNat + 1) (ReplayEvent.calls evs)
  | [], _, _, _, h, _ => by cases pure_eq_ok h; rfl
  | .next :: evs, m, vs, ht, h, hk => by
    simp only [ReplayEvent.calls] at hk
    have hsucc := toNat_add_one (x := m.replayDetectionValue) (by omega)
    rw [replayRun_next] at h
    obtain ⟨vs, hrun, rfl⟩ := map_eq_ok h
    have hvs := replayRun_of_tagFree evs
      { m with replayDetectionValue := m.replayDetectionValue + 1 } vs ht hrun
      (by simp only [hsucc]; omega)
    rw [List.map_cons, hvs, ReplayEvent.calls, List.range'_succ]
    simp only [hsucc]
  | .restart d t :: evs, m, vs, ht, h, hk => by
    obtain ⟨m', hl, hrun⟩ := bind_eq_ok h
    obtain ⟨hv, ht'⟩ := AddrMgr.load_write_keeps_counter ht hl
    rw [← hv]
    exact replayRun_of_tagFree evs m' vs ht' hrun (hv ▸ hk)

end Run

theorem replay_counter_increasing (env : LoadEnv) (m : AddrMgr) (evs : List ReplayEvent)
    (ht : m.TagFree) (hk : m.replayDetectionValue.toNat + ReplayEvent.calls evs < 2 ^ 64) :
    (∀ vs, replayRun env m evs = .ok vs →
      vs.map UInt64.toNat =
          List.range' (m.replayDetectionValue.toNat + 1) (ReplayEvent.calls evs) ∧
        vs.Pairwise (· < ·)) ∧
    ∀ now, m.Dumpable env now → ∃ vs, replayRun env m evs = .ok vs := by
  refine ⟨fun vs hrun => ?_, fun now hd => ?_⟩
  · have hvs := replayRun_of_tagFree evs m vs ht hrun hk
    have hlt := List.pairwise_lt_range' (m.replayDetectionValue.toNat + 1) (ReplayEvent.calls evs)
    rw [← hvs, List.pairwise_map] at hlt
    exact ⟨hvs, hlt⟩
  · obtain ⟨vs, hrun, -⟩ := replayRun_successors evs m now hd hk
    exact ⟨vs, hrun⟩

theorem replay_counter_increasing_one_prefix :
    let m := (AddrMgr.empty.addPrefix ⟨[1]⟩ none "eth0".toList 2 1 0 0
      (some ⟨[0x2001, 0xdb8, 0, 0, 0, 0, 0, 0x10], rfl⟩) 5 5 64 7).2
    let env : LoadEnv := ⟨fun _ => true, fun _ => true, 128, 0, fun _ => ⟨List.replicate 8 0, rfl⟩⟩
    let evs := [ReplayEvent.next, .restart 3 4, .next]
    m.TagFree ∧ m.replayDetectionValue.toNat + ReplayEvent.calls evs < 2 ^ 64 ∧ m.Dumpable env 0 ∧
      ((∀ vs, replayRun env m evs = .ok vs →
        vs.map UInt64.toNat =
            List.range' (m.replayDetectionValue.toNat + 1) (ReplayEvent.calls evs) ∧
          vs.Pairwise (· < ·)) ∧
      ∀ now, m.Dumpable env now → ∃ vs, replayRun env m evs = .ok vs) := by
  intro m env evs
  have ht : m.TagFree := by
    unfold m
    decide
  have hd : m.Dumpable env 0 := by
    unfold m env
    decide
  have hk : m.replayDetectionValue.toNat + ReplayEvent.calls evs < 2 ^ 64 := by decide
  exact ⟨ht, hk, hd, replay_counter_increasing env m evs ht hk⟩

/-- The counter does not increase over every run. From `2^64 - 2`, a call, a restart and a call
return `2^64 - 1`, then 0: the pre-increment wraps. From 7, in a store whose two PDs are named
`</AddrClient>` and `<replayDetection>5`, they return 8, then 6: the first name ends the
client's block early, and the loader takes the second PD's opening line for the counter's. -/
theorem replay_counter_not_increasing :
    let env : LoadEnv := ⟨fun _ => true, fun _ => true, 128, 0, fun _ => ⟨List.replicate 8 0, rfl⟩⟩
    let m : AddrMgr := ((AddrMgr.empty.addPrefix ⟨[1]⟩ none "</AddrClient>".toList 2 1 0 0
      (some ⟨[0x2001, 0xdb8, 0, 0, 0, 0, 0, 0x10], rfl⟩) 5 5 64 7).2.addPrefix ⟨[1]⟩ none
      "<replayDetection>5".toList 2 2 0 0 (some ⟨[0x2001, 0xdb8, 0, 0, 0, 0, 0, 0x20], rfl⟩) 5 5
      64 7).2
    replayRun env { AddrMgr.empty with replayDetectionValue := 18446744073709551614 }
        [.next, .restart 0 0, .next] = .ok [18446744073709551615, 0] ∧
      replayRun env { m with replayDetectionValue := 7 } [.next, .restart 0 0, .next] =
        .ok [8, 6] := by
  intro env m
  constructor
  · decide
  · unfold env m
    set_option maxRecDepth 100000 in decide

end Dibbler
