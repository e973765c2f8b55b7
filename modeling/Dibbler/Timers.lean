import Dibbler.Store

/-! The timer getters of `TAddrMgr` (`getT1Timeout`, `getT2Timeout`, `getPrefTimeout`,
`getValidTimeout`). Each scans `ClntsLst` from `UINT_MAX` and keeps a client's value whenever
it is smaller. The per-client getters belong to `TAddrClient`, which is not part of this
file: they are the fields of `ClientTimers`, and every result below holds for any of them. -/

namespace Dibbler

/-- `UINT_MAX` as the getters' `unsigned long` accumulator starts from it: the no-timeout
sentinel. -/
def UINT_MAX : UInt64 := 4294967295

/-- The four `TAddrClient` timer getters the manager's getters call. -/
structure ClientTimers where
  getT1Timeout : AddrClient → UInt64
  getT2Timeout : AddrClient → UInt64
  getPrefTimeout : AddrClient → UInt64
  getValidTimeout : AddrClient → UInt64

/-- `r` is min(`UINT_MAX`, min over the clients of `timeout`): it is the sentinel or one
client's value, and it is at most the sentinel and every client's value. -/
structure LeastTimeout (timeout : AddrClient → UInt64) (clients : List AddrClient)
    (r : UInt64) : Prop where
  attained : r = UINT_MAX ∨ ∃ c ∈ clients, timeout c = r
  le_sentinel : r ≤ UINT_MAX
  le_clients : ∀ c ∈ clients, r ≤ timeout c

/-- The specification pins the value down: two such values are equal. -/
theorem LeastTimeout.unique {timeout : AddrClient → UInt64} {clients : List AddrClient}
    {r₁ r₂ : UInt64} (h₁ : LeastTimeout timeout clients r₁)
    (h₂ : LeastTimeout timeout clients r₂) : r₁ = r₂ := by
  have below {r s : UInt64} (hr : LeastTimeout timeout clients r)
      (hs : LeastTimeout timeout clients s) : s ≤ r := by
    rcases hr.attained with rfl | ⟨c, hc, rfl⟩
    · exact hs.le_sentinel
    · exact hs.le_clients c hc
  exact UInt64.eq_of_toBitVec_eq (BitVec.le_antisymm (below h₂ h₁) (below h₁ h₂))

namespace AddrMgr

/-- The loop body shared by the four getters: `if (ts > ptr->getXTimeout()) ts = ...`. -/
def keepSmaller (timeout : AddrClient → UInt64) (ts : UInt64) (c : AddrClient) : UInt64 :=
  if ts > timeout c then timeout c else ts

/-- The shared shape of the four getters: the loop over the clients from `UINT_MAX`. -/
def getTimeout (m : AddrMgr) (timeout : AddrClient → UInt64) : UInt64 :=
  m.clients.foldl (keepSmaller timeout) UINT_MAX

/-- `TAddrMgr::getT1Timeout`. -/
def getT1Timeout (m : AddrMgr) (clnt : ClientTimers) : UInt64 := m.getTimeout clnt.getT1Timeout

/-- `TAddrMgr::getT2Timeout`. -/
def getT2Timeout (m : AddrMgr) (clnt : ClientTimers) : UInt64 := m.getTimeout clnt.getT2Timeout

/-- `TAddrMgr::getPrefTimeout`. -/
def getPrefTimeout (m : AddrMgr) (clnt : ClientTimers) : UInt64 :=
  m.getTimeout clnt.getPrefTimeout

/-- `TAddrMgr::getValidTimeout`. -/
def getValidTimeout (m : AddrMgr) (clnt : ClientTimers) : UInt64 :=
  m.getTimeout clnt.getValidTimeout

theorem keepSmaller_eq (timeout : AddrClient → UInt64) (ts : UInt64) (c : AddrClient) :
    keepSmaller timeout ts c = timeout c ∨ keepSmaller timeout ts c = ts := by
  unfold keepSmaller
  split
  · exact .inl rfl
  · exact .inr rfl

theorem keepSmaller_le_left (timeout : AddrClient → UInt64) (ts : UInt64) (c : AddrClient) :
    keepSmaller timeout ts c ≤ ts := by
  unfold keepSmaller
  split
  · next h => exact UInt64.not_lt.mp (UInt64.lt_asymm h)
  · exact UInt64.le_refl ts

theorem keepSmaller_le_right (timeout : AddrClient → UInt64) (ts : UInt64) (c : AddrClient) :
    keepSmaller timeout ts c ≤ timeout c := by
  unfold keepSmaller
  split
  · exact UInt64.le_refl _
  · next h => exact UInt64.not_lt.mp h

/-- The loop invariant, for any start `ts`: the result is `ts` or a scanned client's value,
and it is at most `ts` and every scanned client's value. -/
theorem foldl_keepSmaller (timeout : AddrClient → UInt64) :
    ∀ (cs : List AddrClient) (ts : UInt64),
      let r := cs.foldl (keepSmaller timeout) ts
      (r = ts ∨ ∃ c ∈ cs, timeout c = r) ∧ r ≤ ts ∧ ∀ c ∈ cs, r ≤ timeout c
  | [], ts => ⟨.inl rfl, UInt64.le_refl ts, fun _ h => nomatch h⟩
  | c :: cs, ts => by
    obtain ⟨hat, hle, hcs⟩ := foldl_keepSmaller timeout cs (keepSmaller timeout ts c)
    simp only [List.foldl_cons, List.mem_cons, exists_eq_or_imp, forall_eq_or_imp]
    generalize cs.foldl (keepSmaller timeout) (keepSmaller timeout ts c) = r at hat hle hcs ⊢
    refine ⟨?_, UInt64.le_trans hle (keepSmaller_le_left timeout ts c),
      UInt64.le_trans hle (keepSmaller_le_right timeout ts c), hcs⟩
    rcases keepSmaller_eq timeout ts c with hk | hk <;> rw [hk] at hat
    · exact .inr (hat.imp Eq.symm id)
    · exact hat.imp id .inr

/-- Whatever the client getters return, the shared loop yields min(`UINT_MAX`, min over
the clients). -/
theorem getTimeout_least (m : AddrMgr) (timeout : AddrClient → UInt64) :
    LeastTimeout timeout m.clients (m.getTimeout timeout) :=
  let ⟨hat, hle, hcs⟩ := foldl_keepSmaller timeout m.clients UINT_MAX
  ⟨hat, hle, hcs⟩

theorem timer_getters_least (m : AddrMgr) (clnt : ClientTimers) :
    LeastTimeout clnt.getT1Timeout m.clients (m.getT1Timeout clnt) ∧
      LeastTimeout clnt.getT2Timeout m.clients (m.getT2Timeout clnt) ∧
      LeastTimeout clnt.getPrefTimeout m.clients (m.getPrefTimeout clnt) ∧
      LeastTimeout clnt.getValidTimeout m.clients (m.getValidTimeout clnt) :=
  ⟨getTimeout_least m _, getTimeout_least m _, getTimeout_least m _, getTimeout_least m _⟩

end AddrMgr

end Dibbler
