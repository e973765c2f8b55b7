import Dibbler.KeyInvariant

/-! Client lookups as the calls see them. A call of a DUID variant writes back, appends or
deletes only the client of its DUID, so the client any other DUID finds with
`getClient(SPtr<TDUID>)` stays as it was; on a key-unique store `delClient` takes its DUID out
of the lookup altogether. The lookup by address, `getClient(SPtr<TIPv6Addr>)`, reads only the
clients' IAs, which prefix delegation never touches: a call rewrites a client's PDs, appends a
client without IAs, or deletes a client once it holds none, so only `delClient` can change what
an address finds. -/

namespace Dibbler

section Frame

variable {α : Type} {p : α → Bool}

/-- Overwriting an element the cursor skips with another it skips leaves the cursor's stop. -/
theorem firstMatch_set_of_false : ∀ {l : List α} {i : Nat} {a b : α},
    l[i]? = some a → p a = false → p b = false → firstMatch p (l.set i b) = firstMatch p l
  | [], _, _, _, h, _, _ => by simp at h
  | c :: l, 0, a, b, h, ha, hb => by
    obtain rfl : c = a := by simpa using h
    simp [firstMatch, ha, hb]
  | c :: l, i + 1, a, b, h, ha, hb => by
    simp only [List.set_cons_succ, firstMatch,
      firstMatch_set_of_false (l := l) (by simpa using h) ha hb]

/-- Erasing an element the cursor skips leaves the element it stops on. -/
theorem firstMatch_eraseIdx_of_false : ∀ {l : List α} {i : Nat} {a : α},
    l[i]? = some a → p a = false →
      (firstMatch p (l.eraseIdx i)).map Prod.snd = (firstMatch p l).map Prod.snd
  | [], _, _, h, _ => by simp at h
  | c :: l, 0, a, h, ha => by
    obtain rfl : c = a := by simpa using h
    simp [firstMatch, ha, Option.map_map, Function.comp_def]
  | c :: l, i + 1, a, h, ha => by
    have ih := firstMatch_eraseIdx_of_false (l := l) (by simpa using h) ha
    by_cases hc : p c
    · simp [firstMatch, hc]
    · simp only [List.eraseIdx_cons_succ, firstMatch, hc, Bool.false_eq_true, if_false,
        Option.map_map, Function.comp_def]
      simpa only [Option.map_map, Function.comp_def] using ih

theorem firstMatch_append_of_false {l : List α} {b : α} (hb : p b = false) :
    firstMatch p (l ++ [b]) = firstMatch p l := by
  induction l with
  | nil => simp [firstMatch, hb]
  | cons c l ih => rw [List.cons_append, firstMatch, ih, firstMatch]

/-- The cursor over the projections of a list stops where the cursor over the list stops,
on the projection of its element. -/
theorem firstMatch_map {β : Type} (f : α → β) (q : β → Bool) : ∀ l : List α,
    firstMatch q (l.map f) = (firstMatch (fun a => q (f a)) l).map fun r => (r.1, f r.2)
  | [] => rfl
  | a :: l => by
    simp only [List.map_cons, firstMatch, firstMatch_map f q l]
    split <;> simp [Option.map_map, Function.comp_def]

end Frame

namespace AddrMgr

variable {m : AddrMgr} {i : Nat} {c c' : AddrClient} {d : Duid}

theorem getClient_addClient_of_ne (hc : c.duid ≠ d) :
    (m.addClient c).getClient d = m.getClient d := by
  simp only [getClient, addClient_clients,
    firstMatch_append_of_false (p := fun x : AddrClient => x.duid == d) (by simpa using hc)]

theorem getClient_setClient_of_ne (hi : m.clients[i]? = some c) (hc : c.duid ≠ d)
    (hc' : c'.duid ≠ d) : (m.setClient i c').getClient d = m.getClient d := by
  simp only [getClient, setClient_clients, firstMatch_set_of_false
    (p := fun x : AddrClient => x.duid == d) hi (by simpa using hc) (by simpa using hc')]

theorem getClient_delClient_of_ne {duid : Duid} (hd : d ≠ duid) :
    (m.delClient duid).2.getClient d = m.getClient d := by
  unfold delClient
  split
  · rfl
  · next i c h =>
    have hc : c.duid ≠ d := by
      rw [show c.duid = duid by simpa using firstMatch_pred h]; exact Ne.symm hd
    exact firstMatch_eraseIdx_of_false (firstMatch_getElem? h) (by simpa using hc)

variable {duid : Duid} {addr : Option IPv6Addr} {ifname : List Char} {ifindex : BitVec 32}
  {iaid t1 t2 : UInt64} {p : Option IPv6Addr} {pref valid : UInt64} {length : BitVec 32}
  {now : UInt64}

theorem getClient_addPrefixClient_of_ne (hi : ∀ c, m.clients[i]? = some c → c.duid ≠ d) :
    (m.addPrefixClient (some i) duid addr ifname ifindex iaid t1 t2 p pref valid length
      now).2.getClient d = m.getClient d :=
  addPrefixClient_elim (·.getClient d = m.getClient d) _ p rfl fun _ c _ hi' _ hc => by
    cases hi'
    exact getClient_setClient_of_ne hc (hi c hc)
      (by rw [AddrClient.addPrefix_duid]; exact hi c hc)

theorem getClient_updatePrefixClient_of_ne (hi : ∀ c, m.clients[i]? = some c → c.duid ≠ d) :
    (m.updatePrefixClient (some i) iaid t1 t2 p pref valid now).2.getClient d =
      m.getClient d :=
  updatePrefixClient_elim (·.getClient d = m.getClient d) _ p rfl fun _ c _ hi' _ hc => by
    cases hi'
    exact getClient_setClient_of_ne hc (hi c hc)
      (by rw [AddrClient.updatePrefix_duid]; exact hi c hc)

/-- The client the DUID cursor finds has another DUID than `d`. -/
theorem found_duid_ne (hd : d ≠ duid) (h : firstMatch (·.duid == duid) m.clients = some (i, c)) :
    ∀ c', m.clients[i]? = some c' → c'.duid ≠ d := fun c' hc' => by
  rw [firstMatch_getElem? h, Option.some.injEq] at hc'
  subst hc'
  rw [show c.duid = duid by simpa using firstMatch_pred h]
  exact Ne.symm hd

theorem getClient_addPrefix_of_ne (hd : d ≠ duid) :
    (m.addPrefix duid addr ifname ifindex iaid t1 t2 p pref valid length now).2.getClient d =
      m.getClient d := by
  unfold addPrefix
  split
  · next i c h => exact getClient_addPrefixClient_of_ne (found_duid_ne hd h)
  · refine (getClient_addPrefixClient_of_ne fun c' hc' => ?_).trans
      (getClient_addClient_of_ne (Ne.symm hd))
    simp only [addClient_clients, List.getElem?_concat_length, Option.some.injEq] at hc'
    rw [← hc']
    exact Ne.symm hd

theorem getClient_updatePrefix_of_ne (hd : d ≠ duid) {r : Bool × AddrMgr}
    (h : m.updatePrefix duid iaid t1 t2 p pref valid now = some r) :
    r.2.getClient d = m.getClient d := by
  unfold updatePrefix at h
  split at h
  · cases p <;> cases h; rfl
  · next i c hf => cases h; exact getClient_updatePrefixClient_of_ne (found_duid_ne hd hf)

theorem getClient_delPrefix_of_ne (hd : d ≠ duid) (prefixAddr : IPv6Addr) :
    (m.delPrefix duid iaid prefixAddr).2.getClient d = m.getClient d := by
  rcases delPrefix_cases m duid iaid prefixAddr with
    ⟨h, -⟩ | ⟨i, c, j, pd, -, client', hi, -, -, hcl, h⟩
  · rw [h]
  · have hc : client'.duid = duid := by rw [hcl]; split <;> simpa using firstMatch_pred hi
    have set := getClient_setClient_of_ne (firstMatch_getElem? hi) (found_duid_ne hd hi c
      (firstMatch_getElem? hi)) (hc ▸ Ne.symm hd : client'.duid ≠ d)
    rw [h]
    split
    · exact (getClient_delClient_of_ne hd).trans set
    · exact set

/-- On a key-unique store `delClient` removes exactly its DUID from client lookup: the client
it deletes is the only one with that DUID, and every other DUID finds what it found before. -/
theorem KeyUnique.delClient_getClient (hk : m.KeyUnique) (duid d : Duid) :
    (m.delClient duid).2.getClient d = if d = duid then none else m.getClient d := by
  split
  · next hd =>
    subst hd
    cases h : firstMatch (·.duid == d) m.clients with
    | none => simp only [delClient, h, getClient, Option.map_none']
    | some r =>
      obtain ⟨i, c⟩ := r
      simp only [delClient, h, getClient, Option.map_eq_none', firstMatch_eq_none,
        beq_eq_false_iff_ne]
      intro a ha had
      obtain ⟨j, hji, hj⟩ := List.mem_eraseIdx_iff_getElem?.mp ha
      have hci := firstMatch_getElem? h
      have hc : c.duid = d := by simpa using firstMatch_pred h
      refine hji (@List.getElem?_inj _ _ _ (m.clients.map AddrClient.duid) ?_ hk.duids ?_)
      · simpa using (List.getElem?_eq_some_iff.mp hj).1
      · simp only [List.getElem?_map, hj, hci, Option.map_some', had, hc]
  · next hd => exact getClient_delClient_of_ne hd

/-- A store holding two clients, built by `addPrefix`: `delClient` deletes the first, and the
second is found as before. -/
theorem delClient_getClient_two_clients :
    let lo : IPv6Addr := ⟨[0, 0, 0, 0, 0, 0, 0, 1], rfl⟩
    let m := ((empty.addPrefix ⟨[1]⟩ none [] 0 1 0 0 (some lo) 5 5 64 0).2.addPrefix ⟨[2]⟩ none []
      0 1 0 0 (some lo) 5 5 64 0).2
    m.KeyUnique ∧ (m.getClient ⟨[2]⟩).isSome ∧ (m.delClient ⟨[1]⟩).2.getClient ⟨[2]⟩ =
      if (⟨[2]⟩ : Duid) = ⟨[1]⟩ then none else m.getClient ⟨[2]⟩ := by
  intro lo m
  have hk : m.KeyUnique :=
    keyUnique_addPrefix (keyUnique_addPrefix ⟨List.nodup_nil, by simp [empty]⟩)
  exact ⟨hk, by decide, KeyUnique.delClient_getClient hk _ _⟩

end AddrMgr

/-- The DUID a call of a DUID variant finds its client by. -/
def Call.clientDuid : Call → Option Duid
  | .addPrefix duid .. => some duid
  | .updatePrefix duid .. => some duid
  | .delPrefix duid .. => some duid
  | .delClient duid => some duid
  | _ => none

/-- Calls keep to their client: a call that finds its client by a DUID leaves, whatever it
returns, the client that any other DUID finds as it was. -/
theorem AddrMgr.getClient_call_of_ne {m m' : AddrMgr} {now : UInt64} {call : Call}
    {duid d : Duid} (hcall : call.clientDuid = some duid) (hd : d ≠ duid)
    (h : m.call now call = some m') : m'.getClient d = m.getClient d := by
  cases call with
  | addPrefix =>
    cases hcall; cases h; exact AddrMgr.getClient_addPrefix_of_ne hd
  | updatePrefix =>
    cases hcall
    simp only [AddrMgr.call, Option.map_eq_some'] at h
    obtain ⟨r, hr, rfl⟩ := h
    exact AddrMgr.getClient_updatePrefix_of_ne hd hr
  | delPrefix => cases hcall; cases h; exact AddrMgr.getClient_delPrefix_of_ne hd _
  | delClient => cases hcall; cases h; exact AddrMgr.getClient_delClient_of_ne hd
  | addPrefixClient => cases hcall
  | updatePrefixClient => cases hcall
  | updateInterfacesInfo => cases hcall

/-- A second client's `addPrefix` leaves the first client as it was. -/
theorem getClient_call_of_ne_second_client :
    let lo : IPv6Addr := ⟨[0, 0, 0, 0, 0, 0, 0, 1], rfl⟩
    let m := (AddrMgr.empty.addPrefix ⟨[1]⟩ none [] 0 1 0 0 (some lo) 5 5 64 0).2
    let call := Call.addPrefix ⟨[2]⟩ none [] 0 1 0 0 (some lo) 5 5 64
    call.clientDuid = some ⟨[2]⟩ ∧ (⟨[1]⟩ : Duid) ≠ ⟨[2]⟩ ∧
      m.call 0 call = some (m.addPrefix ⟨[2]⟩ none [] 0 1 0 0 (some lo) 5 5 64 0).2 ∧
      (m.addPrefix ⟨[2]⟩ none [] 0 1 0 0 (some lo) 5 5 64 0).2.getClient ⟨[1]⟩ =
        m.getClient ⟨[1]⟩ := by
  intro lo m call
  exact ⟨rfl, by decide, rfl, @AddrMgr.getClient_call_of_ne m _ 0 call ⟨[2]⟩ ⟨[1]⟩ rfl
    (by decide) rfl⟩

/-- What `getClient(SPtr<TIPv6Addr>)` tests of a client, and what its caller reads of the
client it returns: the DUID and the leases of each IA. -/
def AddrClient.iaLeases (c : AddrClient) : Duid × List (List AddrAddr) :=
  (c.duid, c.ia.map AddrIA.leases)

theorem AddrClient.updateInterfacesInfo_ia (f : AddrIA → Bool × AddrIA) (c : AddrClient) :
    (c.updateInterfacesInfo f).2.ia = (updateEach f c.ia).2 := by
  unfold AddrClient.updateInterfacesInfo
  split <;> (try split) <;> simp_all

namespace AddrMgr

variable {m : AddrMgr} {a : IPv6Addr}

/-- An address lookup, read through `iaLeases`, is a cursor over the clients' projections. -/
theorem getClientByAddr_iaLeases (m : AddrMgr) (a : IPv6Addr) :
    (m.getClientByAddr a).map AddrClient.iaLeases =
      (firstMatch (fun r => r.2.any fun ls => ls.any (·.addr == a))
        (m.clients.map AddrClient.iaLeases)).map Prod.snd := by
  simp only [getClientByAddr, firstMatch_map, AddrClient.iaLeases, List.any_eq, List.mem_map,
    exists_exists_and_eq_and, Option.map_map, Function.comp_def]

theorem getClientByAddr_of_iaLeases {m' : AddrMgr}
    (h : m'.clients.map AddrClient.iaLeases = m.clients.map AddrClient.iaLeases) :
    (m'.getClientByAddr a).map AddrClient.iaLeases =
      (m.getClientByAddr a).map AddrClient.iaLeases := by
  rw [getClientByAddr_iaLeases, h, getClientByAddr_iaLeases]

theorem getClientByAddr_setClient {i : Nat} {c c' : AddrClient} (hi : m.clients[i]? = some c)
    (h : c'.iaLeases = c.iaLeases) :
    ((m.setClient i c').getClientByAddr a).map AddrClient.iaLeases =
      (m.getClientByAddr a).map AddrClient.iaLeases :=
  getClientByAddr_of_iaLeases (map_set_of_key hi h)

/-- A client without IAs is never found by address, so appending one changes no lookup. -/
theorem getClientByAddr_addClient {c : AddrClient} (hc : c.ia = []) :
    (m.addClient c).getClientByAddr a = m.getClientByAddr a := by
  simp only [getClientByAddr, addClient_clients, firstMatch_append_of_false
    (p := fun c : AddrClient => c.ia.any fun ia => ia.leases.any (·.addr == a)) (b := c)
    (by simp [hc])]

/-- Deleting a client without IAs changes no lookup by address. -/
theorem getClientByAddr_delClient {d : Duid} {i : Nat} {c : AddrClient}
    (h : firstMatch (·.duid == d) m.clients = some (i, c)) (hc : c.ia = []) :
    (m.delClient d).2.getClientByAddr a = m.getClientByAddr a := by
  simp only [delClient, h, getClientByAddr]
  exact firstMatch_eraseIdx_of_false (firstMatch_getElem? h) (by simp [hc])

variable {duid : Duid} {addr : Option IPv6Addr} {ifname : List Char} {ifindex : BitVec 32}
  {iaid t1 t2 : UInt64} {p : Option IPv6Addr} {pref valid : UInt64} {length : BitVec 32}
  {now : UInt64}

theorem getClientByAddr_addPrefixClient (client : Option Nat) :
    ((m.addPrefixClient client duid addr ifname ifindex iaid t1 t2 p pref valid length
      now).2.getClientByAddr a).map AddrClient.iaLeases =
      (m.getClientByAddr a).map AddrClient.iaLeases :=
  addPrefixClient_elim (fun m' => (m'.getClientByAddr a).map AddrClient.iaLeases =
      (m.getClientByAddr a).map AddrClient.iaLeases) client p rfl fun _ _ _ _ _ hc =>
    getClientByAddr_setClient hc (by simp [AddrClient.iaLeases])

theorem getClientByAddr_addPrefix :
    ((m.addPrefix duid addr ifname ifindex iaid t1 t2 p pref valid length
      now).2.getClientByAddr a).map AddrClient.iaLeases =
      (m.getClientByAddr a).map AddrClient.iaLeases := by
  unfold addPrefix
  split
  · exact getClientByAddr_addPrefixClient _
  · rw [getClientByAddr_addPrefixClient, getClientByAddr_addClient (AddrClient.create_ia duid)]

theorem getClientByAddr_updatePrefixClient (client : Option Nat) :
    ((m.updatePrefixClient client iaid t1 t2 p pref valid now).2.getClientByAddr a).map
      AddrClient.iaLeases = (m.getClientByAddr a).map AddrClient.iaLeases :=
  updatePrefixClient_elim (fun m' => (m'.getClientByAddr a).map AddrClient.iaLeases =
      (m.getClientByAddr a).map AddrClient.iaLeases) client p rfl fun _ _ _ _ _ hc =>
    getClientByAddr_setClient hc (by simp [AddrClient.iaLeases])

theorem getClientByAddr_updatePrefix {r : Bool × AddrMgr}
    (h : m.updatePrefix duid iaid t1 t2 p pref valid now = some r) :
    (r.2.getClientByAddr a).map AddrClient.iaLeases =
      (m.getClientByAddr a).map AddrClient.iaLeases := by
  unfold updatePrefix at h
  split at h
  · cases p <;> cases h; rfl
  · cases h; exact getClientByAddr_updatePrefixClient _

/-- `delPrefix` rewrites a client's PDs only, and deletes a client only once it holds no
IA. -/
theorem getClientByAddr_delPrefix (prefixAddr : IPv6Addr) :
    ((m.delPrefix duid iaid prefixAddr).2.getClientByAddr a).map AddrClient.iaLeases =
      (m.getClientByAddr a).map AddrClient.iaLeases := by
  rcases delPrefix_cases m duid iaid prefixAddr with
    ⟨h, -⟩ | ⟨i, c, j, pd, -, client', hi, -, -, hcl, h⟩
  · rw [h]
  · have same : client'.iaLeases = c.iaLeases := by
      rw [hcl]; split <;> simp [AddrClient.iaLeases]
    have set := getClientByAddr_setClient (a := a) (firstMatch_getElem? hi) same
    rw [h]
    split
    · next empty =>
      have found := firstMatch_set (a := client') hi (by
        simpa [show client'.duid = c.duid from congrArg Prod.fst same] using firstMatch_pred hi)
      rw [getClientByAddr_delClient found (List.length_eq_zero.mp empty.1)]
      exact set
    · exact set

theorem getClientByAddr_updateInterfacesInfo (nameToIndex : List Char → Option (BitVec 32))
    (indexToName : BitVec 32 → Option (List Char)) :
    ((m.updateInterfacesInfo nameToIndex indexToName).2.getClientByAddr a).map
      AddrClient.iaLeases = (m.getClientByAddr a).map AddrClient.iaLeases := by
  refine getClientByAddr_of_iaLeases (updateEach_map (fun c => ?_) m.clients)
  simp only [AddrClient.iaLeases, AddrClient.updateInterfacesInfo_duid,
    AddrClient.updateInterfacesInfo_ia,
    updateEach_map (g := AddrIA.leases) (updateInterfacesInfoIA_leases nameToIndex indexToName)]

end AddrMgr

/-- Prefix delegation never moves an address lease: every call of the mutation API but
`delClient`, whatever it returns, leaves the client that `getClient(SPtr<TIPv6Addr>)` finds
for any address, with its DUID and the leases of its IAs. -/
theorem AddrMgr.getClientByAddr_call {m m' : AddrMgr} {now : UInt64} {call : Call}
    (hcall : ∀ duid, call ≠ .delClient duid) (h : m.call now call = some m') (a : IPv6Addr) :
    (m'.getClientByAddr a).map AddrClient.iaLeases =
      (m.getClientByAddr a).map AddrClient.iaLeases := by
  cases call with
  | addPrefix => cases h; exact AddrMgr.getClientByAddr_addPrefix
  | addPrefixClient => cases h; exact AddrMgr.getClientByAddr_addPrefixClient _
  | updatePrefix =>
    simp only [AddrMgr.call, Option.map_eq_some'] at h
    obtain ⟨r, hr, rfl⟩ := h
    exact AddrMgr.getClientByAddr_updatePrefix hr
  | updatePrefixClient => cases h; exact AddrMgr.getClientByAddr_updatePrefixClient _
  | delPrefix => cases h; exact AddrMgr.getClientByAddr_delPrefix _
  | delClient duid => exact absurd rfl (hcall duid)
  | updateInterfacesInfo => cases h; exact AddrMgr.getClientByAddr_updateInterfacesInfo _ _

/-- A client that leased the loopback address in an IA then takes a delegated prefix: the
address still finds it, with the same leases. -/
theorem getClientByAddr_call_ia_client :
    let lo : IPv6Addr := ⟨[0, 0, 0, 0, 0, 0, 0, 1], rfl⟩
    let net : IPv6Addr := ⟨[0x2001, 0xdb8, 0, 0, 0, 0, 0, 0], rfl⟩
    let ia : AddrIA := { AddrIA.create [] 0 none ⟨[1]⟩ 0 0 1 0 with leases := [⟨lo, 5, 5, 128, 1⟩] }
    let m : AddrMgr := { AddrMgr.empty with clients := [{ AddrClient.create ⟨[1]⟩ with ia := [ia] }] }
    let call := Call.addPrefix ⟨[1]⟩ none [] 0 2 0 0 (some net) 5 5 64
    (∀ duid, call ≠ .delClient duid) ∧
      m.call 0 call = some (m.addPrefix ⟨[1]⟩ none [] 0 2 0 0 (some net) 5 5 64 0).2 ∧
      ((m.addPrefix ⟨[1]⟩ none [] 0 2 0 0 (some net) 5 5 64 0).2.getClientByAddr lo).map
        AddrClient.iaLeases = (m.getClientByAddr lo).map AddrClient.iaLeases := by
  intro lo net ia m call
  have hcall : ∀ duid, call ≠ .delClient duid := fun _ h => Call.noConfusion h
  exact ⟨hcall, rfl, AddrMgr.getClientByAddr_call hcall rfl lo⟩

end Dibbler
