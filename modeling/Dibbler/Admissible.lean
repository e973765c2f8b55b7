import Dibbler.Reader
import Dibbler.Writer

/-! What the snapshot reader keeps, for any file: a lease only with a non-zero timestamp and
lifetimes and an address its hook accepted, an assignment only with a lease, a client only
with an IA or a PD, and never a TA. Each reader function gets one lemma saying what its
result can hold; the loops are then inductions on their fuel. -/

namespace Dibbler

/-- A lease the reader may keep: timestamp and lifetimes not zero, address accepted by the
verification hook. -/
structure AddrAddr.Admissible (verify : IPv6Addr → Bool) (a : AddrAddr) : Prop where
  timestamp : a.timestamp ≠ 0
  pref : a.pref ≠ 0
  valid : a.valid ≠ 0
  verified : verify a.addr = true

/-- An assignment the reader may keep: it holds a lease, and every lease is admissible. -/
structure AddrIA.Admissible (verify : IPv6Addr → Bool) (ia : AddrIA) : Prop where
  nonempty : ia.leases ≠ []
  leases : ∀ a ∈ ia.leases, a.Admissible verify

/-- What a client being read holds at every step: no TA, admissible IAs (addresses checked
by `verifyAddr`) and admissible PDs (prefixes checked by `verifyPrefix`). -/
structure AddrClient.PartsAdmissible (env : LoadEnv) (c : AddrClient) : Prop where
  noTA : c.ta = []
  ia : ∀ ia ∈ c.ia, ia.Admissible env.verifyAddr
  pd : ∀ pd ∈ c.pd, pd.Admissible env.verifyPrefix

/-- A client the reader may keep: its parts are admissible and it holds an IA or a PD. -/
structure AddrClient.Admissible (env : LoadEnv) (c : AddrClient) extends
    c.PartsAdmissible env : Prop where
  holds : c.ia ≠ [] ∨ c.pd ≠ []

def LeasesAdmissible (verify : IPv6Addr → Bool) (ia : Option AddrIA) : Prop :=
  ∀ x ∈ ia, ∀ a ∈ x.leases, a.Admissible verify

section Monad

theorem bind_eq_ok {ε α β : Type} {x : Except ε α} {f : α → Except ε β} {r : β}
    (h : x >>= f = .ok r) : ∃ a, x = .ok a ∧ f a = .ok r := by
  cases x with
  | error e => cases h
  | ok a => exact ⟨a, rfl, h⟩

theorem pure_eq_ok {ε α : Type} {a b : α} (h : (pure a : Except ε α) = .ok b) : a = b := by
  cases h
  rfl

theorem map_eq_ok {ε α β : Type} {x : Except ε α} {f : α → β} {r : β} (h : f <$> x = .ok r) :
    ∃ a, x = .ok a ∧ f a = r := by
  cases x with
  | error e => cases h
  | ok a => exact ⟨a, rfl, by cases h; rfl⟩

end Monad

section Widening

theorem eq_zero_of_ofNat_eq_zero {n : Nat} (hn : n < 2 ^ 64) (h : UInt64.ofNat n = 0) :
    n = 0 := by
  have := congrArg UInt64.toNat h
  rwa [UInt64.toNat_ofNat_of_lt hn] at this

theorem u32ToULong_ne_zero {v : BitVec 32} (h : v ≠ 0) : u32ToULong v ≠ 0 := fun h0 =>
  h (BitVec.eq_of_toNat_eq (eq_zero_of_ofNat_eq_zero (by omega) h0))

theorem intToULong_ne_zero {v : BitVec 32} (h : v ≠ 0) : intToULong v ≠ 0 := fun h0 => by
  have hs : v.signExtend 64 = 0 :=
    BitVec.eq_of_toNat_eq (eq_zero_of_ofNat_eq_zero (BitVec.isLt _) h0)
  refine h (BitVec.eq_of_getLsbD_eq fun i => ?_)
  have := congrArg (·.getLsbD i) hs
  simpa [BitVec.getLsbD_signExtend, show (i : Nat) < 64 by omega] using this

end Widening

section Leases

theorem parseLease_some {k : Bool} {d : BitVec 32} {widen : BitVec 32 → UInt64}
    {toAddr : List Char → IPv6Addr} {buf buf' : List Char} {pd : Bool} {a : AddrAddr}
    (h : parseLease k d widen toAddr buf pd = .ok (some a, buf')) :
    ∃ ts pref valid : BitVec 32, ts ≠ 0 ∧ pref ≠ 0 ∧ valid ≠ 0 ∧
      a.timestamp = widen ts ∧ a.pref = widen pref ∧ a.valid = widen valid := by
  unfold parseLease at h
  split at h
  · obtain ⟨ts, -, h⟩ := bind_eq_ok h
    obtain ⟨pref, -, h⟩ := bind_eq_ok h
    obtain ⟨valid, -, h⟩ := bind_eq_ok h
    obtain ⟨len, -, h⟩ := bind_eq_ok h
    -- every path of the address match ends in the join point that builds the lease
    suffices hjp : ∀ (b : List Char) (addr : Option IPv6Addr),
        (addr.bind fun addr => if ts ≠ 0 ∧ pref ≠ 0 ∧ valid ≠ 0 ∧ pd = k then
          some (⟨addr, widen pref, widen valid, len, widen ts⟩ : AddrAddr) else none) = some a →
        ∃ ts pref valid : BitVec 32, ts ≠ 0 ∧ pref ≠ 0 ∧ valid ≠ 0 ∧
          a.timestamp = widen ts ∧ a.pref = widen pref ∧ a.valid = widen valid by
      simp only [] at h
      split at h
      · exact hjp buf none (congrArg Prod.fst (pure_eq_ok h))
      · obtain ⟨x, -, h⟩ := bind_eq_ok h
        split at h <;> obtain ⟨b, -, h⟩ := bind_eq_ok h <;>
          obtain ⟨text, -, h⟩ := bind_eq_ok h <;>
          exact hjp b (some (toAddr text)) (congrArg Prod.fst (pure_eq_ok h))
    intro b addr hl
    obtain ⟨ad, -, hl⟩ := Option.bind_eq_some.mp hl
    split at hl
    · next hc =>
      cases hl
      exact ⟨ts, pref, valid, hc.1, hc.2.1, hc.2.2.1, rfl, rfl, rfl⟩
    · cases hl
  · cases h

theorem parseLease_admissible {k : Bool} {d : BitVec 32} {widen : BitVec 32 → UInt64}
    {toAddr : List Char → IPv6Addr} {buf buf' : List Char} {pd : Bool} {a : AddrAddr}
    {verify : IPv6Addr → Bool} (hw : ∀ v, v ≠ 0 → widen v ≠ 0)
    (h : parseLease k d widen toAddr buf pd = .ok (some a, buf'))
    (hv : verify a.addr = true) : a.Admissible verify := by
  obtain ⟨ts, pref, valid, hts, hpref, hvalid, e₁, e₂, e₃⟩ := parseLease_some h
  exact ⟨e₁ ▸ hw ts hts, e₂ ▸ hw pref hpref, e₃ ▸ hw valid hvalid, hv⟩

theorem LeasesAdmissible.addLease {verify : IPv6Addr → Bool} {ia : AddrIA} {a : AddrAddr}
    (hi : LeasesAdmissible verify (some ia)) (ha : a.Admissible verify) :
    LeasesAdmissible verify (some (ia.addLease a)) := by
  rintro x ⟨⟩ b hb
  rcases List.mem_append.mp hb with hb | hb
  · exact hi ia rfl b hb
  · exact (List.mem_singleton.mp hb) ▸ ha

theorem readAddrLine_admissible {env : LoadEnv} {buf buf' : List Char} {ia ia' : Option AddrIA}
    (h : readAddrLine env buf ia = .ok (ia', buf'))
    (hi : LeasesAdmissible env.verifyAddr ia) : LeasesAdmissible env.verifyAddr ia' := by
  unfold readAddrLine at h
  split at h
  · obtain ⟨⟨addr, b⟩, hp, h⟩ := bind_eq_ok h
    rcases ia with _ | x <;> rcases addr with _ | a <;> cases pure_eq_ok h <;> try exact hi
    split
    · next hv => exact hi.addLease (parseLease_admissible (fun _ => u32ToULong_ne_zero) hp hv)
    · exact hi
  · cases pure_eq_ok h
    exact hi

theorem readPrefixLine_admissible {env : LoadEnv} {buf buf' : List Char}
    {pd pd' : Option AddrIA} (h : readPrefixLine env buf pd = .ok (pd', buf'))
    (hi : LeasesAdmissible env.verifyPrefix pd) : LeasesAdmissible env.verifyPrefix pd' := by
  unfold readPrefixLine at h
  split at h
  · obtain ⟨⟨pr, b⟩, hp, h⟩ := bind_eq_ok h
    rcases pd with _ | x <;> rcases pr with _ | a <;> cases pure_eq_ok h <;> try exact hi
    split
    · next hv => exact hi.addLease (parseLease_admissible (fun _ => intToULong_ne_zero) hp hv)
    · exact hi
  · cases pure_eq_ok h
    exact hi

theorem LeasesAdmissible.of_leases {verify : IPv6Addr → Bool} {ia ia' : Option AddrIA}
    (he : ia'.map AddrIA.leases = ia.map AddrIA.leases) (hi : LeasesAdmissible verify ia) :
    LeasesAdmissible verify ia' := by
  rcases ia' with _ | x'
  · exact fun _ h => nomatch h
  · rcases ia with _ | x
    · cases he
    · rintro _ ⟨⟩
      exact (Option.some.inj he) ▸ hi x rfl

theorem readFqdnDnsServer_leases {env : LoadEnv} {buf : List Char} {ia ia' : Option AddrIA}
    (h : readFqdnDnsServer env buf ia = .ok ia') : ia'.map AddrIA.leases = ia.map AddrIA.leases := by
  unfold readFqdnDnsServer at h
  dsimp only at h
  split at h
  · cases pure_eq_ok h
    rfl
  · obtain ⟨e, -, h⟩ := bind_eq_ok h
    split at h
    · cases pure_eq_ok h
      rfl
    · obtain ⟨b, -, h⟩ := bind_eq_ok h
      obtain ⟨text, -, h⟩ := bind_eq_ok h
      cases pure_eq_ok h
      cases ia <;> rfl

theorem readFqdn_leases {buf : List Char} {ia ia' : Option AddrIA}
    (h : readFqdn buf ia = .ok ia') : ia'.map AddrIA.leases = ia.map AddrIA.leases := by
  unfold readFqdn at h
  dsimp only at h
  split at h
  · cases pure_eq_ok h
    rfl
  obtain ⟨_, -, h⟩ := bind_eq_ok h
  obtain ⟨_, -, h⟩ := bind_eq_ok h
  split at h
  · cases pure_eq_ok h
    rfl
  obtain ⟨_, -, h⟩ := bind_eq_ok h
  obtain ⟨_, -, h⟩ := bind_eq_ok h
  split at h
  · cases pure_eq_ok h
    rfl
  obtain ⟨_, -, h⟩ := bind_eq_ok h
  split at h
  · cases pure_eq_ok h
    rfl
  obtain ⟨_, -, h⟩ := bind_eq_ok h
  obtain ⟨_, -, h⟩ := bind_eq_ok h
  cases pure_eq_ok h
  cases ia <;> rfl

theorem LeasesAdmissible.none (verify : IPv6Addr → Bool) : LeasesAdmissible verify none :=
  fun _ h => nomatch h

theorem LeasesAdmissible.fresh (verify : IPv6Addr → Bool) {ia : AddrIA} (h : ia.leases = []) :
    LeasesAdmissible verify (some ia) := by
  rintro _ ⟨⟩ a ha
  exact absurd (h ▸ ha) (List.not_mem_nil a)

end Leases

section Assignments

variable {env : LoadEnv} {n : AssignmentNumbers} {name : List Char}

theorem parseAddrIA_admissible : ∀ {fuel : Nat} {ia ia' : Option AddrIA} {s s' : Stream},
    parseAddrIA env n name fuel ia s = .ok (ia', s') → LeasesAdmissible env.verifyAddr ia →
      LeasesAdmissible env.verifyAddr ia'
  | 0, _, _, _, _, h, _ => by cases h
  | fuel + 1, ia, ia', s, s', h, hi => by
    rw [parseAddrIA] at h
    by_cases heof : s.eof
    · rw [if_pos heof] at h
      cases pure_eq_ok h
      exact hi
    rw [if_neg heof] at h
    rcases hf : fgets s with ⟨_ | buf, s₁⟩ <;> simp only [hf] at h
    · cases pure_eq_ok h
      exact .none _
    by_cases h₁ : contains buf "<duid"
    · rw [if_pos h₁] at h
      obtain ⟨duid, -, h⟩ := bind_eq_ok h
      exact parseAddrIA_admissible h (.fresh _ rfl)
    rw [if_neg h₁] at h
    by_cases h₂ : contains buf "<fqdnDnsServer>"
    · rw [if_pos h₂] at h
      obtain ⟨ia₂, h₂, h⟩ := bind_eq_ok h
      exact parseAddrIA_admissible h (hi.of_leases (readFqdnDnsServer_leases h₂))
    rw [if_neg h₂] at h
    by_cases h₃ : contains buf "<fqdn "
    · rw [if_pos h₃] at h
      obtain ⟨ia₂, h₂, h⟩ := bind_eq_ok h
      exact parseAddrIA_admissible h (hi.of_leases (readFqdn_leases h₂))
    rw [if_neg h₃] at h
    obtain ⟨⟨ia₂, b⟩, h₂, h⟩ := bind_eq_ok h
    have hi₂ := readAddrLine_admissible h₂ hi
    dsimp only at h
    split at h
    · cases pure_eq_ok h
      exact hi₂
    · exact parseAddrIA_admissible h hi₂

theorem parseAddrPD_admissible : ∀ {fuel : Nat} {pd pd' : Option AddrIA} {s s' : Stream},
    parseAddrPD env n name fuel pd s = .ok (pd', s') → LeasesAdmissible env.verifyPrefix pd →
      LeasesAdmissible env.verifyPrefix pd'
  | 0, _, _, _, _, h, _ => by cases h
  | fuel + 1, pd, pd', s, s', h, hi => by
    rw [parseAddrPD] at h
    by_cases heof : s.eof
    · rw [if_pos heof] at h
      cases pure_eq_ok h
      exact hi
    rw [if_neg heof] at h
    rcases hf : fgets s with ⟨_ | buf, s₁⟩ <;> simp only [hf] at h
    · cases pure_eq_ok h
      exact .none _
    by_cases h₁ : contains buf "duid"
    · rw [if_pos h₁] at h
      obtain ⟨duid, -, h⟩ := bind_eq_ok h
      exact parseAddrPD_admissible h (.fresh _ rfl)
    rw [if_neg h₁] at h
    obtain ⟨⟨pd₂, b⟩, h₂, h⟩ := bind_eq_ok h
    have hi₂ := readPrefixLine_admissible h₂ hi
    dsimp only at h
    split at h
    · cases pure_eq_ok h
      exact hi₂
    · exact parseAddrPD_admissible h hi₂

end Assignments

section Clients

variable {env : LoadEnv}

def ClientScan.Inv (env : LoadEnv) (st : ClientScan) : Prop :=
  ∀ c ∈ st.clnt, c.PartsAdmissible env

theorem AddrIA.Admissible.of_leases {verify : IPv6Addr → Bool} {ia : AddrIA}
    (hi : LeasesAdmissible verify (some ia)) (hlen : ¬ia.leases.length = 0) :
    ia.Admissible verify :=
  ⟨fun e => hlen (e ▸ rfl), hi ia rfl⟩

theorem AddrClient.PartsAdmissible.create (duid : Duid) :
    (AddrClient.create duid).PartsAdmissible env :=
  ⟨rfl, (fun _ h => nomatch h), (fun _ h => nomatch h)⟩

theorem AddrClient.PartsAdmissible.addIA {c : AddrClient} {ia : AddrIA}
    (hc : c.PartsAdmissible env) (hia : ia.Admissible env.verifyAddr) :
    (c.addIA ia).PartsAdmissible env := by
  refine ⟨hc.noTA, fun x hx => ?_, hc.pd⟩
  rcases List.mem_append.mp hx with hx | hx
  · exact hc.ia x hx
  · exact (List.mem_singleton.mp hx) ▸ hia

theorem AddrClient.PartsAdmissible.addPD {c : AddrClient} {pd : AddrIA}
    (hc : c.PartsAdmissible env) (hpd : pd.Admissible env.verifyPrefix) :
    (c.addPD pd).PartsAdmissible env := by
  refine ⟨hc.noTA, hc.ia, fun x hx => ?_⟩
  rcases List.mem_append.mp hx with hx | hx
  · exact hc.pd x hx
  · exact (List.mem_singleton.mp hx) ▸ hpd

theorem ClientScan.attachIA_inv {st : ClientScan} {ia : AddrIA} (hst : st.Inv env)
    (hi : LeasesAdmissible env.verifyAddr (some ia)) : (st.attachIA ia).Inv env := by
  unfold ClientScan.attachIA
  split
  · exact hst
  · next c hc =>
    split
    · exact hst
    · next hlen =>
      have hadm := AddrIA.Admissible.of_leases hi hlen
      split <;> rintro _ ⟨⟩ <;> exact (hst c hc).addIA ⟨hadm.1, hadm.2⟩

theorem ClientScan.attachPD_inv {st : ClientScan} {c : AddrClient} {pd : AddrIA}
    (hc : c.PartsAdmissible env) (hp : LeasesAdmissible env.verifyPrefix (some pd)) :
    (st.attachPD c pd).Inv env := by
  unfold ClientScan.attachPD
  split
  next pd' u heq =>
    have hl : pd'.leases = pd.leases := by
      split at heq <;> cases heq <;> rfl
    rintro _ ⟨⟩
    split
    · exact hc
    · next hlen =>
      exact hc.addPD ⟨fun e => hlen (e ▸ rfl), fun a ha => hp pd rfl a (hl ▸ ha)⟩

theorem clientPDLine_inv {fuel : Nat} {st st' : ClientScan} {buf : List Char} {s s' : Stream}
    {more : Bool} (h : clientPDLine env fuel st buf s = .ok (more, st', s'))
    (hst : st.Inv env) : st'.Inv env := by
  unfold clientPDLine at h
  dsimp only at h
  split at h
  · obtain ⟨n, -, h⟩ := bind_eq_ok h
    obtain ⟨⟨b, u⟩, -, h⟩ := bind_eq_ok h
    obtain ⟨name, -, h⟩ := bind_eq_ok h
    obtain ⟨⟨pd, s₃⟩, hpd, h⟩ := bind_eq_ok h
    obtain ⟨y, hy, h⟩ := bind_eq_ok h
    have hy' : y.2.1.Inv env := by
      cases pure_eq_ok hy
      split
      · exact hst
      · next p c hp hc =>
        have hpd' := parseAddrPD_admissible hpd (.none _)
        simp only at hp
        subst hp
        exact ClientScan.attachPD_inv (hst c hc) hpd'
      · exact hst
    split at h <;> cases pure_eq_ok h <;> exact hy'
  · obtain ⟨y, hy, h⟩ := bind_eq_ok h
    cases pure_eq_ok hy
    cases pure_eq_ok h
    exact hst

theorem clientLine_inv {fuel : Nat} {st st' : ClientScan} {buf : List Char} {s s' : Stream}
    {more : Bool} (h : clientLine env fuel st buf s = .ok (more, st', s'))
    (hst : st.Inv env) : st'.Inv env := by
  unfold clientLine at h
  split at h
  · obtain ⟨duid, -, h⟩ := bind_eq_ok h
    cases pure_eq_ok h
    rintro _ ⟨⟩
    exact .create duid
  · -- the key test and the IA test each end in a join point; both of their branches reach it
    dsimp only at h
    split at h
    on_goal 1 => obtain ⟨key, -, h⟩ := bind_eq_ok h
    all_goals
      obtain ⟨y, hy, h⟩ := bind_eq_ok h
      have hy' : y.2.Inv env := by
        cases pure_eq_ok hy
        exact hst
      split at h
      on_goal 1 =>
        obtain ⟨n, -, h⟩ := bind_eq_ok h
        obtain ⟨name, -, h⟩ := bind_eq_ok h
        obtain ⟨u, -, h⟩ := bind_eq_ok h
        obtain ⟨⟨ia, s₄⟩, hia, h⟩ := bind_eq_ok h
        have hi := parseAddrIA_admissible hia (.none _)
      all_goals
        obtain ⟨y₁, hy₁, h⟩ := bind_eq_ok h
        have hy₁' : LeasesAdmissible env.verifyAddr y₁.1 ∧ y₁.2.1.Inv env := by
          cases pure_eq_ok hy₁
          first
          | exact ⟨hi, hy'⟩
          | exact ⟨.none _, hy'⟩
        split at h
        · next ia heq =>
          cases pure_eq_ok h
          exact ClientScan.attachIA_inv hy₁'.2 (heq ▸ hy₁'.1)
        · split at h <;> obtain ⟨s₅, -, h⟩ := bind_eq_ok h <;>
            exact clientPDLine_inv h hy₁'.2

theorem ClientScan.finish_admissible {st : ClientScan} (hst : st.Inv env) :
    ∀ c ∈ st.finish, c.PartsAdmissible env := by
  rintro _ hx
  obtain ⟨c, hc, rfl⟩ := Option.mem_map.mp hx
  exact ⟨(hst c hc).noTA, (hst c hc).ia, (hst c hc).pd⟩

theorem parseAddrClientLoop_admissible : ∀ {fuel : Nat} {st : ClientScan} {s s' : Stream}
    {c : Option AddrClient}, parseAddrClientLoop env fuel st s = .ok (c, s') → st.Inv env →
      ∀ x ∈ c, x.PartsAdmissible env
  | 0, _, _, _, _, h, _ => by cases h
  | fuel + 1, st, s, s', c, h, hst => by
    unfold parseAddrClientLoop at h
    split at h
    · cases pure_eq_ok h
      exact ClientScan.finish_admissible hst
    split at h
    · cases pure_eq_ok h
      exact fun _ h => nomatch h
    obtain ⟨⟨more, st₂, s₂⟩, h₂, h⟩ := bind_eq_ok h
    have hst₂ := clientLine_inv h₂ hst
    dsimp only at h
    split at h
    · exact parseAddrClientLoop_admissible h hst₂
    · cases pure_eq_ok h
      exact ClientScan.finish_admissible hst₂

end Clients

section Manager

variable {env : LoadEnv}

theorem AddrClient.PartsAdmissible.admissible {c : AddrClient} (hc : c.PartsAdmissible env)
    (hcount : 0 < c.count) : c.Admissible env := by
  refine ⟨hc, ?_⟩
  have hta := hc.noTA
  unfold AddrClient.count at hcount
  rw [hta, List.length_nil] at hcount
  rcases Nat.eq_zero_or_pos c.ia.length with hi | hi
  · exact .inr (List.ne_nil_of_length_pos (by omega))
  · exact .inl (List.ne_nil_of_length_pos hi)

theorem loadLoop_admissible : ∀ {fuel : Nat} {tag : Bool} {clnt : Option AddrClient}
    {m m' : AddrMgr} {s : Stream} {b : Bool}, loadLoop env fuel tag clnt m s = .ok (b, m') →
      ∃ added, m'.clients = m.clients ++ added ∧ ∀ c ∈ added, c.Admissible env
  | 0, _, _, _, _, _, _, h => by cases h
  | fuel + 1, tag, clnt, m, m', s, b, h => by
    have done : ∀ {r : Bool}, (pure (r, m) : Except Fault _) = .ok (b, m') →
        ∃ added, m'.clients = m.clients ++ added ∧ ∀ c ∈ added, c.Admissible env := by
      intro r h
      cases pure_eq_ok h
      exact ⟨[], (List.append_nil _).symm, fun _ h => nomatch h⟩
    rw [loadLoop] at h
    by_cases heof : s.eof
    · rw [if_pos heof] at h
      exact done h
    rw [if_neg heof] at h
    rcases hf : fgets s with ⟨_ | buf, s₁⟩ <;> simp only [hf] at h
    · exact done h
    by_cases h₁ : contains buf "<AddrMgr>"
    · rw [if_pos h₁] at h
      exact loadLoop_admissible h
    rw [if_neg h₁] at h
    by_cases h₂ : contains buf "<timestamp>"
    · rw [if_pos h₂] at h
      exact loadLoop_admissible h
    rw [if_neg h₂] at h
    cases h₃ : findSub "<replayDetection>".toList buf with
    | some i =>
      simp only [h₃] at h
      obtain ⟨added, he, hadd⟩ := loadLoop_admissible h
      exact ⟨added, he, hadd⟩
    | none =>
      simp only [h₃] at h
      split at h
      · obtain ⟨⟨c, s₂⟩, hc, h⟩ := bind_eq_ok h
        dsimp only at h
        split at h
        · next c =>
          obtain ⟨added, he, hadd⟩ := loadLoop_admissible h
          split at he
          · next hcount =>
            have hparts := parseAddrClientLoop_admissible hc (fun _ h => nomatch h) c rfl
            refine ⟨c :: added, by simp [he, AddrMgr.addClient], ?_⟩
            rintro x (_ | ⟨_, hx⟩)
            · exact hparts.admissible hcount
            · exact hadd x hx
          · exact ⟨added, he, hadd⟩
        · split at h
          · exact done h
          · exact loadLoop_admissible h
      split at h
      · exact done h
      · exact loadLoop_admissible h

/-- Whatever file `xmlLoadBuiltIn` reads, it appends to the manager's clients only clients
holding an IA or a PD and no TA, whose IAs and PDs all hold a lease, and whose leases all
have a non-zero timestamp, pref and valid lifetime and were accepted by `verifyAddr`
(addresses) or `verifyPrefix` (prefixes). -/
theorem xmlLoadBuiltIn_keeps_admissible (env : LoadEnv) (m : AddrMgr) (text : List Char)
    (b : Bool) (m' : AddrMgr) (h : xmlLoadBuiltIn env m text = .ok (b, m')) :
    ∃ added, m'.clients = m.clients ++ added ∧ ∀ c ∈ added, c.Admissible env :=
  loadLoop_admissible h

theorem xmlLoadBuiltIn_keeps_admissible_dump :
    let env : LoadEnv := ⟨fun _ => true, fun _ => true, 128, 0, fun _ => ⟨List.replicate 8 0, rfl⟩⟩
    let m := (AddrMgr.empty.addPrefix ⟨[1]⟩ none "eth0".toList 2 1 0 0
      (some ⟨[0x2001, 0xdb8, 0, 0, 0, 0, 0, 0x10], rfl⟩) 5 5 64 7).2
    ∃ b m', xmlLoadBuiltIn env AddrMgr.empty (m.write 0) = .ok (b, m') ∧
      ∃ added, m'.clients = AddrMgr.empty.clients ++ added ∧ ∀ c ∈ added, c.Admissible env := by
  intro env m
  have hok : (xmlLoadBuiltIn env AddrMgr.empty (m.write 0)).toBool = true := by
    unfold env m
    set_option maxRecDepth 100000 in decide
  match hx : xmlLoadBuiltIn env AddrMgr.empty (m.write 0), hok with
  | .ok (b, m'), _ =>
    exact ⟨b, m', rfl, xmlLoadBuiltIn_keeps_admissible env AddrMgr.empty (m.write 0) b m' hx⟩

end Manager

end Dibbler
