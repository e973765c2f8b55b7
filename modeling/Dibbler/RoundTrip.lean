import Dibbler.Blocks

/-! The snapshot round trip: loading the text the writer produced for a dumpable manager
rebuilds the manager normalised. The loader's loop reads the header lines, then each client's
block as `Dibbler.Blocks` says, then the closing line. -/

namespace Dibbler

section Manager

variable {env : LoadEnv} {fuel : Nat} {rest : List Char} {clnt : Option AddrClient}
  {m : AddrMgr}

/-- A client's block: the loader adds the client normalised when it keeps an assignment. -/
theorem loadLoop_client {c : AddrClient} (hta : c.ta = [])
    (hia : ∀ ia ∈ c.ia, ia.Dumpable env .ia) (hpd : ∀ pd ∈ c.pd, pd.Dumpable env .pd)
    (hshort : ∀ line ∈ c.lines, byteLength line ≤ 254)
    (hfuel : (c.lines.flatten ++ rest).length < fuel + 1) :
    loadLoop env (fuel + 1) true clnt m ⟨c.lines.flatten ++ rest, false⟩ =
      loadLoop env fuel true (some (c.normalise env))
        (if 0 < (c.normalise env).count then m.addClient (c.normalise env) else m)
        ⟨rest, false⟩ := by
  have hfit : Fits "  <AddrClient>\n".toList :=
    fits_of_body "  <AddrClient>".toList (by decide) (by decide) (by decide)
  have hsplit :
      c.lines.flatten ++ rest = "  <AddrClient>\n".toList ++ (c.lines.tail.flatten ++ rest) := by
    simp [AddrClient.lines]
  rw [hsplit] at hfuel ⊢
  have hf : (c.lines.tail.flatten ++ rest).length < fuel := by
    have := length_pos_of_fits hfit
    simp only [List.length_append] at hfuel ⊢
    omega
  have h₁ : contains "  <AddrClient>\n".toList "<AddrMgr>" = false := by decide
  have h₂ : contains "  <AddrClient>\n".toList "<timestamp>" = false := by decide
  have h₃ : findSub "<replayDetection>".toList "  <AddrClient>\n".toList = none := by decide
  have h₄ : contains "  <AddrClient>\n".toList "<AddrClient" = true := by decide
  rw [loadLoop]
  simp only [Bool.false_eq_true, if_false, fgets_fits hfit, h₁, h₂, h₃, Bool.true_and, h₄,
    if_true, parseAddrClient_block hta hia hpd hshort hf, ok_bind]

/-- The clients' blocks: the loader adds the clients normalised that keep an assignment. -/
theorem loadLoop_clients (cs : List AddrClient) (hta : ∀ c ∈ cs, c.ta = [])
    (hia : ∀ c ∈ cs, ∀ ia ∈ c.ia, ia.Dumpable env .ia)
    (hpd : ∀ c ∈ cs, ∀ pd ∈ c.pd, pd.Dumpable env .pd)
    (hshort : ∀ c ∈ cs, ∀ line ∈ c.lines, byteLength line ≤ 254)
    (hfuel : ((cs.flatMap AddrClient.lines).flatten ++ rest).length < fuel) :
    ∃ f clnt', rest.length < f ∧
      loadLoop env fuel true clnt m ⟨(cs.flatMap AddrClient.lines).flatten ++ rest, false⟩ =
        loadLoop env f true clnt' { m with
          clients := m.clients ++ (cs.map (·.normalise env)).filter (0 < ·.count) } ⟨rest, false⟩ := by
  induction cs generalizing clnt m fuel with
  | nil => exact ⟨fuel, clnt, by simpa using hfuel, by simp⟩
  | cons c cs ih =>
    simp only [List.mem_cons, forall_eq_or_imp] at hta hia hpd hshort
    simp only [List.flatMap_cons, List.flatten_append, List.append_assoc] at hfuel ⊢
    have hpos : 0 < c.lines.flatten.length := by simp [AddrClient.lines]
    simp only [List.length_append] at hfuel
    obtain ⟨f, rfl⟩ : ∃ f, fuel = f + 1 := ⟨fuel - 1, by omega⟩
    rw [loadLoop_client hta.1 hia.1 hpd.1 hshort.1 (by simp only [List.length_append]; omega)]
    have hf : ((cs.flatMap AddrClient.lines).flatten ++ rest).length < f := by
      simp only [List.length_append]; omega
    obtain ⟨g, clnt', hg, h⟩ := ih hta.2 hia.2 hpd.2 hshort.2 hf
    refine ⟨g, clnt', hg,
      h.trans (congrArg (loadLoop env g true clnt' · ⟨rest, false⟩) ?_)⟩
    by_cases hc : 0 < (c.normalise env).count <;> simp [hc, AddrMgr.addClient, List.filter_cons]

end Manager

section Load

variable {env : LoadEnv} {now : UInt32} {m : AddrMgr}

/-- What a dump holds after its header: the clients' blocks and the closing line. -/
def AddrMgr.bodyText (m : AddrMgr) : List Char :=
  (m.clients.flatMap AddrClient.lines).flatten ++ "</AddrMgr>\n".toList

/-- A snapshot: its header lines, then the clients' blocks and the closing line. -/
theorem AddrMgr.write_eq (m : AddrMgr) (now : UInt32) :
    m.write now = "<AddrMgr>\n".toList ++ (element 2 "timestamp" (decimal now.toNat) ++
      (element 2 "replayDetection" (decimal m.replayDetectionValue.toNat) ++ m.bodyText)) := by
  simp [AddrMgr.write, AddrMgr.lines, AddrMgr.bodyText]

/-- The header of any dump: the loader sets its tag and takes the dump's counter. -/
theorem loadLoop_header (m₀ : AddrMgr) (clnt : Option AddrClient) {fuel : Nat}
    (hfuel : (m.write now).length < fuel) :
    ∃ f, m.bodyText.length < f ∧ loadLoop env fuel false clnt m₀ ⟨m.write now, false⟩ =
      loadLoop env f true clnt { m₀ with replayDetectionValue := m.replayDetectionValue }
        ⟨m.bodyText, false⟩ := by
  rw [AddrMgr.write_eq] at hfuel ⊢
  have h₀ : Fits "<AddrMgr>\n".toList := fits_of_body "<AddrMgr>".toList (by decide) (by decide)
    (by decide)
  have h₁ : Fits (element 2 "timestamp" (decimal now.toNat)) :=
    fits_element inline_decimal (by decide) (by decide)
      (byteLength_element_decimal (by decide) (by have : now.toNat < 2 ^ 32 := now.val.isLt; omega))
  have h₂ : Fits (element 2 "replayDetection" (decimal m.replayDetectionValue.toNat)) :=
    fits_element inline_decimal (by decide) (by decide)
      (byteLength_element_decimal (by decide) m.replayDetectionValue.val.isLt)
  obtain ⟨f₁, rfl, hf₁⟩ := fuel_step h₀ hfuel
  obtain ⟨f₂, rfl, hf₂⟩ := fuel_step h₁ hf₁
  obtain ⟨f₃, rfl, hf₃⟩ := fuel_step h₂ hf₂
  obtain ⟨r₁, r₂, r₃, r₄⟩ := replayLine_tests (x := m.replayDetectionValue.toNat)
    m.replayDetectionValue.val.isLt
  refine ⟨f₃, hf₃, ?_⟩
  rw [loadLoop]
  simp only [Bool.false_eq_true, if_false, fgets_fits h₀,
    show contains "<AddrMgr>\n".toList "<AddrMgr>" = true by decide, if_true]
  rw [loadLoop]
  simp only [Bool.false_eq_true, if_false, fgets_fits h₁, timestampLine_tests.1,
    timestampLine_tests.2, if_true]
  rw [loadLoop]
  simp only [Bool.false_eq_true, if_false, fgets_fits h₂, r₁, r₂, r₃, r₄, ofNat_toNat_uint64]

/-- `xmlLoadBuiltIn` on any manager `m₀` over the dump of a dumpable manager `m`: it appends
`m`'s clients normalised, those that keep an assignment, to the clients `m₀` already holds,
and takes `m`'s replay counter. -/
theorem xmlLoadBuiltIn_write (hd : m.Dumpable env now) (m₀ : AddrMgr) :
    ∃ b, xmlLoadBuiltIn env m₀ (m.write now) = .ok (b, { m₀ with
      clients := m₀.clients ++ (m.clients.map (·.normalise env)).filter (0 < ·.count)
      replayDetectionValue := m.replayDetectionValue }) := by
  obtain ⟨f, hf, h⟩ := @loadLoop_header env now m m₀ none _ (Nat.lt_succ_self _)
  obtain ⟨f₄, clnt, hf₄, h₄⟩ := @loadLoop_clients env _ _ _ _ m.clients hd.noTA hd.ia hd.pd
    ((AddrMgr.short_lines_iff m now).mp hd.short) hf
  have h₅ : Fits "</AddrMgr>\n".toList := fits_of_body "</AddrMgr>".toList (by decide)
    (by decide) (by decide)
  obtain ⟨f₅, rfl, -⟩ := fuel_step h₅ hf₄
  rw [xmlLoadBuiltIn, Stream.ofText, h, AddrMgr.bodyText, h₄, loadLoop]
  simp only [Bool.false_eq_true, if_false, fgets_fits h₅,
    show contains "</AddrMgr>\n".toList "<AddrMgr>" = false by decide,
    show contains "</AddrMgr>\n".toList "<timestamp>" = false by decide,
    show findSub "<replayDetection>".toList "</AddrMgr>\n".toList = none by decide,
    show contains "</AddrMgr>\n".toList "<AddrClient" = false by decide,
    show contains "</AddrMgr>\n".toList "</AddrMgr>" = true by decide, Bool.and_false, if_true]
  exact ⟨_, rfl⟩

/-- Loading a dumpable manager's snapshot rebuilds the manager normalised. -/
theorem AddrMgr.load_write (hd : m.Dumpable env now) :
    AddrMgr.load env (some (m.write now)) = .ok (m.normalise env) := by
  obtain ⟨b, hb⟩ := xmlLoadBuiltIn_write hd AddrMgr.empty
  simp only [AddrMgr.load, hb]
  rfl

/-- A store holding one delegated prefix is dumpable, and its snapshot loads back as the store
normalised. -/
theorem load_write_one_prefix :
    let m := (AddrMgr.empty.addPrefix ⟨[1]⟩ none "eth0".toList 2 1 0 0
      (some ⟨[0x2001, 0xdb8, 0, 0, 0, 0, 0, 0x10], rfl⟩) 5 5 64 7).2
    let env : LoadEnv := ⟨fun _ => true, fun _ => true, 128, 0, fun _ => ⟨List.replicate 8 0, rfl⟩⟩
    m.Dumpable env 0 ∧ AddrMgr.load env (some (m.write 0)) = .ok (m.normalise env) := by
  intro m env
  have hd : m.Dumpable env 0 := by
    unfold m env
    decide
  exact ⟨hd, AddrMgr.load_write hd⟩

/-- A PD with IAID `2^31`, a `u32` value: `atoi` returns `INT_MIN`, which the reader
sign-extends, so the reloaded PD has IAID `2^64 - 2^31` and the store does not come back. -/
theorem iaid_above_int_max_reloads_other :
    let m : AddrMgr := (AddrMgr.empty.addPrefix ⟨[1]⟩ none "eth0".toList 2 2147483648 0 0
      (some ⟨[0x2001, 0xdb8, 0, 0, 0, 0, 0, 0x10], rfl⟩) 5 5 64 7).2
    let env : LoadEnv := ⟨fun _ => true, fun _ => true, 128, 0, fun _ => ⟨List.replicate 8 0, rfl⟩⟩
    (AddrMgr.load env (some (m.write 0))).map (·.clients.map (·.pd.map (·.iaid))) =
        .ok [[18446744071562067968]] ∧
      (m.normalise env).clients.map (·.pd.map (·.iaid)) = [[2147483648]] ∧
      AddrMgr.load env (some (m.write 0)) ≠ .ok (m.normalise env) := by
  simp only
  set_option maxRecDepth 100000 in decide

end Load

end Dibbler
