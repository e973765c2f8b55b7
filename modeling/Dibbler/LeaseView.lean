import Dibbler.KeyInvariant
import Mathlib.Data.List.Perm.Basic

/-! The store as an abstract lease map (spec §4.1, §8): the finite map from (client DUID, PD
IAID, prefix) to (prefix length, preferred lifetime, valid lifetime) over every prefix of
every PD of every client. The map is read off the store's list of entries; on a key-unique
store the keys of that list are distinct, so the map holds exactly the entries. Below are
also the `flatMap` permutation and lookup facts the refinement proofs share. -/

namespace Dibbler

/-- A key of the abstract lease map. -/
structure LeaseKey where
  duid : Duid
  iaid : UInt64
  addr : IPv6Addr
  deriving DecidableEq

/-- What the abstract lease map holds for a key. -/
structure LeaseVal where
  length : BitVec 32
  pref : UInt64
  valid : UInt64
  deriving DecidableEq

/-- The entries of one PD of the client with `duid`. -/
def pdEntries (duid : Duid) (pd : AddrIA) : List (LeaseKey × LeaseVal) :=
  pd.leases.map fun l => (⟨duid, pd.iaid, l.addr⟩, ⟨l.length, l.pref, l.valid⟩)

/-- The entries of one client: the leases of its PDs. -/
def AddrClient.leaseEntries (c : AddrClient) : List (LeaseKey × LeaseVal) :=
  c.pd.flatMap (pdEntries c.duid)

/-- The entries of a store. -/
def AddrMgr.leaseEntries (m : AddrMgr) : List (LeaseKey × LeaseVal) :=
  m.clients.flatMap AddrClient.leaseEntries

/-- The abstract lease map of a store. -/
def AddrMgr.view (m : AddrMgr) (k : LeaseKey) : Option LeaseVal :=
  (firstMatch (·.1 == k) m.leaseEntries).map (·.2.2)

section Perm

variable {α β : Type} {l : List α} {i : Nat} {a b : α} {f : α → List β}

/-- Replacing the element at a cursor position changes a `flatMap` by what the element's
image changes by. -/
theorem flatMap_set_perm (f : α → List β) (added removed : List β) (hb : l[i]? = some b)
    (h : List.Perm (f a ++ removed) (f b ++ added)) :
    List.Perm ((l.set i a).flatMap f ++ removed) (l.flatMap f ++ added) := by
  obtain ⟨hi, rfl⟩ := List.getElem?_eq_some_iff.mp hb
  have split : l = l.take i ++ l[i] :: l.drop (i + 1) := by
    rw [List.cons_getElem_drop_succ, List.take_append_drop]
  rw [List.set_eq_take_append_cons_drop, if_pos hi]
  conv_rhs => rw [split]
  simp only [List.flatMap_append, List.flatMap_cons, List.append_assoc]
  refine List.Perm.append_left _ ?_
  have before : List.Perm (f a ++ ((l.drop (i + 1)).flatMap f ++ removed))
      ((f a ++ removed) ++ (l.drop (i + 1)).flatMap f) := by
    rw [List.append_assoc]; exact List.perm_append_comm.append_left _
  have after : List.Perm ((f l[i] ++ added) ++ (l.drop (i + 1)).flatMap f)
      (f l[i] ++ ((l.drop (i + 1)).flatMap f ++ added)) := by
    rw [List.append_assoc]; exact List.perm_append_comm.append_left _
  exact before.trans ((h.append_right _).trans after)

/-- Writing back an element whose image has grown by `added`. -/
theorem flatMap_set_perm_add {added : List β} (hb : l[i]? = some b)
    (h : List.Perm (f a) (f b ++ added)) :
    List.Perm ((l.set i a).flatMap f) (l.flatMap f ++ added) := by
  simpa using flatMap_set_perm f added [] hb (by simpa using h)

/-- Writing back an element whose image has lost `x`. -/
theorem flatMap_set_perm_remove {x : β} (hb : l[i]? = some b) (h : List.Perm (f b) (x :: f a)) :
    List.Perm (l.flatMap f) (x :: (l.set i a).flatMap f) := by
  have shrunk := flatMap_set_perm f [] [x] hb (by simpa using (h.trans (List.perm_append_singleton x _).symm).symm)
  simpa using shrunk.symm.trans (List.perm_append_singleton x _)

/-- Erasing the element at a cursor position. -/
theorem perm_cons_eraseIdx (hb : l[i]? = some b) : List.Perm l (b :: l.eraseIdx i) := by
  obtain ⟨hi, rfl⟩ := List.getElem?_eq_some_iff.mp hb
  conv_lhs => rw [← List.take_append_drop i l, List.drop_eq_getElem_cons hi]
  rw [List.eraseIdx_eq_take_drop_succ]
  exact List.perm_middle

/-- Erasing the element at a cursor position removes its image from a `flatMap`. -/
theorem flatMap_eraseIdx_perm (f : α → List β) (hb : l[i]? = some b) :
    List.Perm (l.flatMap f) (f b ++ (l.eraseIdx i).flatMap f) := by
  simpa using (perm_cons_eraseIdx hb).flatMap_right f

end Perm

section Keys

variable {m : AddrMgr} {c : AddrClient}

@[simp] theorem mem_pdEntries {duid : Duid} {pd : AddrIA} {e : LeaseKey × LeaseVal} :
    e ∈ pdEntries duid pd ↔ ∃ l ∈ pd.leases,
      e = (⟨duid, pd.iaid, l.addr⟩, ⟨l.length, l.pref, l.valid⟩) := by
  simp [pdEntries, eq_comm]

theorem AddrClient.KeyUnique.keys_nodup (hk : c.KeyUnique) :
    (c.leaseEntries.map Prod.fst).Nodup := by
  rw [AddrClient.leaseEntries, List.map_flatMap, List.nodup_flatMap]
  refine ⟨fun pd hpd => ?_, ?_⟩
  · have inj : Function.Injective fun a : IPv6Addr => (⟨c.duid, pd.iaid, a⟩ : LeaseKey) :=
      fun _ _ h => by cases h; rfl
    simpa [pdEntries, List.map_map, Function.comp_def] using (hk.prefixes pd hpd).map inj
  · refine (List.pairwise_map.mp hk.iaids).imp fun {x y} hxy => ?_
    simp only [Function.onFun, List.disjoint_left, List.mem_map, mem_pdEntries]
    rintro _ ⟨_, ⟨l, _, rfl⟩, rfl⟩ ⟨_, ⟨l', _, h⟩, he⟩
    rw [h] at he
    exact hxy (congrArg LeaseKey.iaid he).symm

theorem AddrMgr.KeyUnique.keys_nodup (hk : m.KeyUnique) :
    (m.leaseEntries.map Prod.fst).Nodup := by
  rw [AddrMgr.leaseEntries, List.map_flatMap, List.nodup_flatMap]
  refine ⟨fun c hc => (hk.clients c hc).keys_nodup, ?_⟩
  refine (List.pairwise_map.mp hk.duids).imp fun {x y} hxy => ?_
  simp only [Function.onFun, List.disjoint_left, List.mem_map, AddrClient.leaseEntries,
    List.mem_flatMap, mem_pdEntries]
  rintro _ ⟨_, ⟨pd, _, l, _, rfl⟩, rfl⟩ ⟨_, ⟨pd', _, l', _, h⟩, he⟩
  rw [h] at he
  exact hxy (congrArg LeaseKey.duid he).symm

/-- On a key-unique store the view holds exactly the store's entries. -/
theorem AddrMgr.KeyUnique.view_eq_some (hk : m.KeyUnique) (k : LeaseKey) (v : LeaseVal) :
    m.view k = some v ↔ (k, v) ∈ m.leaseEntries := by
  have key := firstMatch_key hk.keys_nodup k
  simp only [AddrMgr.view, Option.map_eq_some']
  constructor
  · rintro ⟨⟨i, e⟩, h, rfl⟩
    obtain ⟨he, rfl⟩ := (key e).mp ⟨i, h⟩
    exact he
  · intro h
    obtain ⟨i, hi⟩ := (key (k, v)).mpr ⟨h, rfl⟩
    exact ⟨(i, (k, v)), hi, rfl⟩

/-- The view of a key-unique store is any map that holds exactly its entries. -/
theorem AddrMgr.KeyUnique.view_eq (hk : m.KeyUnique) {g : LeaseKey → Option LeaseVal}
    (h : ∀ k v, (k, v) ∈ m.leaseEntries ↔ g k = some v) : m.view = g := by
  funext k
  apply Option.ext
  intro v
  simp only [Option.mem_def]
  rw [hk.view_eq_some, h]

theorem pdEntries_iaid (duid : Duid) (pd : AddrIA) : ∀ e ∈ pdEntries duid pd, e.1.iaid = pd.iaid := by
  simp only [mem_pdEntries]
  rintro _ ⟨l, _, rfl⟩
  rfl

theorem AddrClient.leaseEntries_duid (c : AddrClient) : ∀ e ∈ c.leaseEntries, e.1.duid = c.duid := by
  simp only [AddrClient.leaseEntries, List.mem_flatMap, mem_pdEntries]
  rintro _ ⟨pd, _, l, _, rfl⟩
  rfl

end Keys

section Lookup

variable {α β κ : Type} [DecidableEq κ] {key : α → κ} {f : α → List β} {g : β → κ}
  {l : List α} {k : κ} {i : Nat} {a : α} {b : β}

/-- In a `flatMap` whose images carry their element's key, an item with key `k` comes from
the element the cursor finds by that key. -/
theorem mem_flatMap_of_firstMatch (hf : ∀ a, ∀ b ∈ f a, g b = key a) (hl : (l.map key).Nodup)
    (h : firstMatch (fun x => key x == k) l = some (i, a)) (hb : g b = k) :
    b ∈ l.flatMap f ↔ b ∈ f a := by
  refine ⟨fun hmem => ?_, fun hmem => List.mem_flatMap.mpr ⟨a, firstMatch_mem h, hmem⟩⟩
  obtain ⟨a', ha', hba'⟩ := List.mem_flatMap.mp hmem
  obtain ⟨i', h'⟩ := (firstMatch_key hl k a').mpr ⟨ha', (hf a' b hba').symm.trans hb⟩
  simp only [h, Option.some.injEq, Prod.mk.injEq] at h'
  obtain ⟨-, rfl⟩ := h'
  exact hba'

/-- ... and from nowhere when the cursor finds no element with that key. -/
theorem not_mem_flatMap_of_firstMatch (hf : ∀ a, ∀ b ∈ f a, g b = key a)
    (h : firstMatch (fun x => key x == k) l = none) (hb : g b = k) : b ∉ l.flatMap f := by
  intro hmem
  obtain ⟨a', ha', hba'⟩ := List.mem_flatMap.mp hmem
  have differs := firstMatch_eq_none.mp h a' ha'
  simp [← hf a' b hba', hb] at differs

end Lookup

end Dibbler
