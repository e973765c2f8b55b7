import Dibbler.Store

/-! What `updateInterfacesInfo` guarantees. The daemon calls it after loading a database,
with the operating system's two interface tables, name to index and index to name; the
tables are lookup functions here, and that they describe the same interfaces is the
hypothesis `Inverse`. The result: the call succeeds exactly when the OS still knows every
assignment's interface, and then it rewrites only interface names and indices, onto entries
of the tables, so that a second call finds nothing left to change. -/

namespace Dibbler

section Reconcile

variable (nameToIndex : List Char → Option (BitVec 32))
  (indexToName : BitVec 32 → Option (List Char))

/-- The two tables describe the same interfaces. -/
def Inverse : Prop :=
  ∀ name index, nameToIndex name = some index ↔ indexToName index = some name

/-- The OS still knows the assignment's interface: by name, or by index for a record
without a name. -/
def Reconcilable (ia : AddrIA) : Prop :=
  (ia.ifacename ≠ [] ∧ (nameToIndex ia.ifacename).isSome) ∨
    (ia.ifacename = [] ∧ (indexToName ia.ifindex).isSome)

/-- `ia'` is `ia` with at most its interface name and index changed, and its new name and
index are an entry of `nameToIndex`. -/
def InterfaceUpdated (ia ia' : AddrIA) : Prop :=
  { ia with ifacename := ia'.ifacename, ifindex := ia'.ifindex } = ia' ∧
    nameToIndex ia'.ifacename = some ia'.ifindex

instance : DecidablePred (Reconcilable nameToIndex indexToName) := fun ia => by
  unfold Reconcilable
  infer_instance

end Reconcile

/-- Every IA, TA and PD of a client, in the order `updateInterfacesInfo` visits them. -/
def AddrClient.assignments (c : AddrClient) : List AddrIA := c.ia ++ c.ta ++ c.pd

/-- The client with each of its assignments replaced by its image under `g`. -/
def AddrClient.mapAssignments (g : AddrIA → AddrIA) (c : AddrClient) : AddrClient :=
  { c with ia := c.ia.map g, ta := c.ta.map g, pd := c.pd.map g }

section UpdateEach

variable {α : Type} (f : α → Bool × α)

theorem updateEach_fst (l : List α) :
    (updateEach f l).1 = true ↔ ∀ a ∈ l, (f a).1 = true := by
  induction l with
  | nil => simp [updateEach]
  | cons a l ih =>
    rcases h : f a with ⟨_ | _, a'⟩ <;> simp [updateEach, h, ih]

/-- A loop in which every call succeeds updates every element. -/
theorem updateEach_of_forall {l : List α} (h : ∀ a ∈ l, (f a).1 = true) :
    updateEach f l = (true, l.map fun a => (f a).2) := by
  induction l with
  | nil => rfl
  | cons a l ih =>
    obtain ⟨ha, hl⟩ := List.forall_mem_cons.mp h
    rcases hf : f a with ⟨_ | _, a'⟩
    · simp [hf] at ha
    · simp [updateEach, hf, ih hl]

end UpdateEach

namespace AddrClient

variable (f : AddrIA → Bool × AddrIA) (c : AddrClient)

theorem updateInterfacesInfo_fst :
    (c.updateInterfacesInfo f).1 = true ↔ ∀ ia ∈ c.assignments, (f ia).1 = true := by
  simp only [assignments, List.forall_mem_append, ← updateEach_fst, updateInterfacesInfo]
  rcases updateEach f c.ia with ⟨_ | _, ia⟩ <;>
    rcases updateEach f c.ta with ⟨_ | _, ta⟩ <;> simp

theorem updateInterfacesInfo_of_forall (h : ∀ ia ∈ c.assignments, (f ia).1 = true) :
    c.updateInterfacesInfo f = (true, c.mapAssignments fun ia => (f ia).2) := by
  simp only [assignments, List.forall_mem_append] at h
  simp only [updateInterfacesInfo, updateEach_of_forall f h.1.1, updateEach_of_forall f h.1.2,
    updateEach_of_forall f h.2, mapAssignments]

end AddrClient

section UpdateInterfacesInfoIA

variable {nameToIndex : List Char → Option (BitVec 32)}
  {indexToName : BitVec 32 → Option (List Char)}

theorem updateInterfacesInfoIA_fst (ia : AddrIA) :
    (updateInterfacesInfoIA nameToIndex indexToName ia).1 = true ↔
      Reconcilable nameToIndex indexToName ia := by
  unfold updateInterfacesInfoIA Reconcilable
  split
  · next hname =>
    rcases indexToName ia.ifindex with _ | name <;> simp_all [List.length_eq_zero]
  · next hname =>
    rcases nameToIndex ia.ifacename with _ | index <;> simp_all [List.length_eq_zero]

/-- A reconciled assignment keeps every field but its interface name and index, and ends on
an entry of `nameToIndex`; a legacy record needs the tables to be inverse for that. -/
theorem updateInterfacesInfoIA_snd (hinv : Inverse nameToIndex indexToName) (ia : AddrIA)
    (h : (updateInterfacesInfoIA nameToIndex indexToName ia).1 = true) :
    InterfaceUpdated nameToIndex ia (updateInterfacesInfoIA nameToIndex indexToName ia).2 := by
  unfold updateInterfacesInfoIA at h ⊢
  by_cases hlen : ia.ifacename.length = 0 <;> simp only [hlen, if_true, if_false] at h ⊢
  · rcases hname : indexToName ia.ifindex with _ | name <;>
      simp only [hname, Bool.false_eq_true] at h ⊢
    exact ⟨rfl, (hinv name ia.ifindex).mpr hname⟩
  · rcases hindex : nameToIndex ia.ifacename with _ | index <;>
      simp only [hindex, Bool.false_eq_true] at h ⊢
    by_cases hne : ia.ifindex ≠ index
    · rw [if_pos hne]
      exact ⟨rfl, hindex⟩
    · rw [if_neg hne]
      exact ⟨rfl, hindex.trans (congrArg some (not_not.mp hne).symm)⟩

end UpdateInterfacesInfoIA

namespace AddrMgr

theorem updateInterfacesInfo_reconciles (m : AddrMgr)
    (nameToIndex : List Char → Option (BitVec 32))
    (indexToName : BitVec 32 → Option (List Char)) (hinv : Inverse nameToIndex indexToName) :
    let r := m.updateInterfacesInfo nameToIndex indexToName
    (r.1 = true ↔ ∀ c ∈ m.clients, ∀ ia ∈ c.assignments,
      Reconcilable nameToIndex indexToName ia) ∧
    (r.1 = true → ∃ g : AddrIA → AddrIA,
      (∀ c ∈ m.clients, ∀ ia ∈ c.assignments, InterfaceUpdated nameToIndex ia (g ia)) ∧
      r.2 = { m with clients := m.clients.map (AddrClient.mapAssignments g) }) := by
  let f := updateInterfacesInfoIA nameToIndex indexToName
  have hfst : (m.updateInterfacesInfo nameToIndex indexToName).1 = true ↔
      ∀ c ∈ m.clients, ∀ ia ∈ c.assignments, (f ia).1 = true := by
    simp only [updateInterfacesInfo, updateEach_fst, AddrClient.updateInterfacesInfo_fst]
  refine ⟨hfst.trans (by simp only [f, updateInterfacesInfoIA_fst]),
    fun h => ⟨fun ia => (f ia).2,
      fun c hc ia hia => updateInterfacesInfoIA_snd hinv ia (hfst.mp h c hc ia hia), ?_⟩⟩
  have hall := hfst.mp h
  simp only [updateInterfacesInfo, updateEach_of_forall _ fun c hc =>
    (AddrClient.updateInterfacesInfo_fst f c).mpr (hall c hc)]
  congr 1
  exact List.map_congr_left fun c hc =>
    congrArg Prod.snd (AddrClient.updateInterfacesInfo_of_forall f c (hall c hc))

end AddrMgr

/-- A legacy record (no interface name, index 2) reconciled against an OS with `eth0` at
index 2. -/
theorem updateInterfacesInfo_reconciles_legacy :
    let nameToIndex := fun name : List Char =>
      if name = "eth0".toList then some (2 : BitVec 32) else none
    let indexToName := fun index : BitVec 32 => if index = 2 then some "eth0".toList else none
    let m := (AddrMgr.empty.addPrefix ⟨[1]⟩ none [] 2 1 0 0
      (some ⟨[0x2001, 0xdb8, 0, 0, 0, 0, 0, 0x10], rfl⟩) 5 5 64 7).2
    Inverse nameToIndex indexToName ∧ (m.updateInterfacesInfo nameToIndex indexToName).1 = true := by
  intro nameToIndex indexToName m
  have hinv : Inverse nameToIndex indexToName := by
    intro name index
    by_cases hn : name = "eth0".toList <;> by_cases hi : index = 2 <;>
      simp [nameToIndex, indexToName, hn, hi, eq_comm, and_comm]
  exact ⟨hinv, (AddrMgr.updateInterfacesInfo_reconciles m nameToIndex indexToName hinv).1.mpr
    (by decide)⟩

theorem updateEach_of_fixed {α : Type} {f : α → Bool × α} :
    ∀ {l : List α}, (∀ a ∈ l, f a = (true, a)) → updateEach f l = (true, l)
  | [], _ => rfl
  | a :: l, h => by
    simp only [updateEach, h a (List.mem_cons_self a l),
      updateEach_of_fixed fun b hb => h b (List.mem_cons_of_mem a hb)]

section Fixed

variable {nameToIndex : List Char → Option (BitVec 32)}
  {indexToName : BitVec 32 → Option (List Char)}

/-- An assignment on an entry of `nameToIndex` is reconciled as it is. -/
theorem updateInterfacesInfoIA_of_entry (hinv : Inverse nameToIndex indexToName) {ia : AddrIA}
    (h : nameToIndex ia.ifacename = some ia.ifindex) :
    updateInterfacesInfoIA nameToIndex indexToName ia = (true, ia) := by
  unfold updateInterfacesInfoIA
  by_cases hlen : ia.ifacename.length = 0
  · rw [if_pos hlen, (hinv _ _).mp h]
  · rw [if_neg hlen, h]
    simp

theorem AddrClient.updateInterfacesInfo_of_fixed {f : AddrIA → Bool × AddrIA} {c : AddrClient}
    (h : ∀ ia ∈ c.assignments, f ia = (true, ia)) : c.updateInterfacesInfo f = (true, c) := by
  simp only [AddrClient.assignments, List.forall_mem_append] at h
  simp only [AddrClient.updateInterfacesInfo, updateEach_of_fixed h.1.1, updateEach_of_fixed h.1.2,
    updateEach_of_fixed h.2]

theorem AddrClient.assignments_mapAssignments (g : AddrIA → AddrIA) (c : AddrClient) :
    (c.mapAssignments g).assignments = c.assignments.map g := by
  simp [AddrClient.assignments, AddrClient.mapAssignments]

/-- Reconciling twice changes nothing more: once `updateInterfacesInfo` has succeeded, a
second call with the same tables succeeds and leaves the store as it is. -/
theorem AddrMgr.updateInterfacesInfo_idempotent (m : AddrMgr)
    (hinv : Inverse nameToIndex indexToName)
    (h : (m.updateInterfacesInfo nameToIndex indexToName).1 = true) :
    (m.updateInterfacesInfo nameToIndex indexToName).2.updateInterfacesInfo nameToIndex
      indexToName = (true, (m.updateInterfacesInfo nameToIndex indexToName).2) := by
  let f := updateInterfacesInfoIA nameToIndex indexToName
  have hall : ∀ c ∈ m.clients, ∀ ia ∈ c.assignments, (f ia).1 = true := by
    simpa only [AddrMgr.updateInterfacesInfo, updateEach_fst,
      AddrClient.updateInterfacesInfo_fst] using h
  have hclients : (m.updateInterfacesInfo nameToIndex indexToName).2.clients =
      m.clients.map (AddrClient.mapAssignments fun ia => (f ia).2) := by
    simp only [AddrMgr.updateInterfacesInfo, updateEach_of_forall _ fun c hc =>
      (AddrClient.updateInterfacesInfo_fst f c).mpr (hall c hc)]
    exact List.map_congr_left fun c hc =>
      congrArg Prod.snd (AddrClient.updateInterfacesInfo_of_forall f c (hall c hc))
  have hfixed : ∀ c ∈ (m.updateInterfacesInfo nameToIndex indexToName).2.clients,
      c.updateInterfacesInfo f = (true, c) := by
    rw [hclients]
    intro c hc
    obtain ⟨c, hc₀, rfl⟩ := List.mem_map.mp hc
    refine AddrClient.updateInterfacesInfo_of_fixed fun ia hia => ?_
    rw [AddrClient.assignments_mapAssignments] at hia
    obtain ⟨ia, hia₀, rfl⟩ := List.mem_map.mp hia
    exact updateInterfacesInfoIA_of_entry hinv
      (updateInterfacesInfoIA_snd hinv ia (hall c hc₀ ia hia₀)).2
  have again := updateEach_of_fixed hfixed
  simp only [AddrMgr.updateInterfacesInfo] at again ⊢
  rw [again]

end Fixed

/-- The legacy record reconciled against an OS with `eth0` at index 2, then reconciled
again. -/
theorem updateInterfacesInfo_idempotent_legacy :
    let nameToIndex := fun name : List Char =>
      if name = "eth0".toList then some (2 : BitVec 32) else none
    let indexToName := fun index : BitVec 32 => if index = 2 then some "eth0".toList else none
    let m := (AddrMgr.empty.addPrefix ⟨[1]⟩ none [] 2 1 0 0
      (some ⟨[0x2001, 0xdb8, 0, 0, 0, 0, 0, 0x10], rfl⟩) 5 5 64 7).2
    Inverse nameToIndex indexToName ∧ (m.updateInterfacesInfo nameToIndex indexToName).1 = true ∧
      (m.updateInterfacesInfo nameToIndex indexToName).2.updateInterfacesInfo nameToIndex
        indexToName = (true, (m.updateInterfacesInfo nameToIndex indexToName).2) := by
  intro nameToIndex indexToName m
  have hinv : Inverse nameToIndex indexToName := by
    intro name index
    by_cases hn : name = "eth0".toList <;> by_cases hi : index = 2 <;>
      simp [nameToIndex, indexToName, hn, hi, eq_comm, and_comm]
  have h : (m.updateInterfacesInfo nameToIndex indexToName).1 = true := by decide
  exact ⟨hinv, h, AddrMgr.updateInterfacesInfo_idempotent m hinv h⟩

end Dibbler
