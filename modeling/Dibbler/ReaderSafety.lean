import Mathlib.Tactic.LiftLets
import Dibbler.Reader
import Dibbler.Writer
import Dibbler.LeaseView

/-! What the snapshot reader does on text it did not write. Every line loop consumes a chunk
per turn, so the fuel the loader is given never runs out; but a line that names an element
without closing its opening tag sends `strstr` a null pointer moved past the tag, and a file
cut inside a line is read as if the line were whole: `fgets` sets the end-of-file flag, the
loops `while (!feof(f))` end normally, and the branches that report a truncated file are not
taken.

The line readers run no loop and so cannot run out of fuel. Each loop is shown to stay within
its fuel and to return a stream no longer than the one it was given (`Progress`), by
induction on the fuel, from the innermost (`parseAddrTA`, `parseAddrIA`, `parseAddrPD`) out
to the loop of `xmlLoadBuiltIn`. -/

namespace Dibbler

section FuelFree

variable {α β : Type} {buf : List Char} {p e : Ptr} {needle : String}

@[simp] theorem pure_ne_error (a : α) (e : Fault) : (pure a : Except Fault α) ≠ .error e := by
  rintro ⟨⟩

theorem bind_ne_outOfFuel {x : Except Fault α} {f : α → Except Fault β}
    (hx : x ≠ .error .outOfFuel) (hf : ∀ a, x = .ok a → f a ≠ .error .outOfFuel) :
    x >>= f ≠ .error .outOfFuel := by
  cases x with
  | error e => rintro ⟨⟩; exact hx rfl
  | ok a => exact hf a rfl

@[simp] theorem index_ne_outOfFuel : p.index buf ≠ .error .outOfFuel := by
  unfold Ptr.index
  split
  · split <;> simp
  · simp

@[simp] theorem strstr_ne_outOfFuel : strstr buf p needle ≠ .error .outOfFuel :=
  bind_ne_outOfFuel index_ne_outOfFuel fun _ _ => pure_ne_error _ _

@[simp] theorem cut_ne_outOfFuel : cut buf p ≠ .error .outOfFuel :=
  bind_ne_outOfFuel index_ne_outOfFuel fun _ _ => pure_ne_error _ _

@[simp] theorem cstring_ne_outOfFuel : cstring buf p ≠ .error .outOfFuel :=
  bind_ne_outOfFuel index_ne_outOfFuel fun _ _ => pure_ne_error _ _

@[simp] theorem range_ne_outOfFuel : range buf p e ≠ .error .outOfFuel := by
  unfold range
  split
  · split <;> simp
  · simp

@[simp] theorem atoiAfter_ne_outOfFuel {name : String} {skip : Nat} {dflt : BitVec 32} :
    atoiAfter buf name skip dflt ≠ .error .outOfFuel := by
  unfold atoiAfter atoi
  split
  · exact pure_ne_error _ _
  · exact bind_ne_outOfFuel index_ne_outOfFuel fun _ _ => pure_ne_error _ _

@[simp] theorem readDuid_ne_outOfFuel : readDuid buf ≠ .error .outOfFuel := by
  intro h
  simp only [readDuid, bind, Except.bind] at h
  repeat' split at h
  all_goals cases h <;> simp_all

@[simp] theorem readReconfigureKey_ne_outOfFuel :
    readReconfigureKey buf ≠ .error .outOfFuel := by
  intro h
  simp only [readReconfigureKey, bind, Except.bind] at h
  repeat' split at h
  all_goals cases h <;> simp_all

@[simp] theorem parseLease_ne_outOfFuel {k pd : Bool} {d : BitVec 32}
    {w : BitVec 32 → UInt64} {a : List Char → IPv6Addr} :
    parseLease k d w a buf pd ≠ .error .outOfFuel := by
  intro h
  simp only [parseLease, bind, Except.bind] at h
  repeat' split at h
  all_goals cases h <;> simp_all only [atoiAfter_ne_outOfFuel, strstr_ne_outOfFuel,
    cut_ne_outOfFuel, cstring_ne_outOfFuel, pure_ne_error]

@[simp] theorem readFqdn_ne_outOfFuel {ia : Option AddrIA} :
    readFqdn buf ia ≠ .error .outOfFuel := by
  intro h
  simp only [readFqdn, bind, Except.bind] at h
  repeat' split at h
  all_goals cases h <;> simp_all

@[simp] theorem readNumbers_ne_outOfFuel : readNumbers buf ≠ .error .outOfFuel := by
  intro h
  simp only [readNumbers, bind, Except.bind] at h
  repeat' split at h
  all_goals cases h <;> simp_all

@[simp] theorem readIfacename_ne_outOfFuel : readIfacename buf ≠ .error .outOfFuel := by
  unfold readIfacename
  split
  · simp
  · exact bind_ne_outOfFuel (by simp) fun _ _ => by split <;> simp

@[simp] theorem readUnicast_ne_outOfFuel {env : LoadEnv} {u : Option IPv6Addr} :
    readUnicast env buf u ≠ .error .outOfFuel := by
  intro h
  simp only [readUnicast, bind, Except.bind] at h
  repeat' split at h
  all_goals cases h <;> simp_all

@[simp] theorem readPDUnicast_ne_outOfFuel {env : LoadEnv} {u : Option IPv6Addr} :
    readPDUnicast env buf u ≠ .error .outOfFuel := by
  intro h
  simp only [readPDUnicast, bind, Except.bind] at h
  repeat' split at h
  all_goals cases h <;> simp_all

@[simp] theorem readFqdnDnsServer_ne_outOfFuel {env : LoadEnv} {ia : Option AddrIA} :
    readFqdnDnsServer env buf ia ≠ .error .outOfFuel := by
  intro h
  simp only [readFqdnDnsServer, bind, Except.bind] at h
  repeat' split at h
  all_goals cases h <;> simp_all

@[simp] theorem readAddrLine_ne_outOfFuel {env : LoadEnv} {ia : Option AddrIA} :
    readAddrLine env buf ia ≠ .error .outOfFuel := by
  intro h
  simp only [readAddrLine, parseAddrAddr, bind, Except.bind] at h
  repeat' split at h
  all_goals cases h <;> simp_all

@[simp] theorem readPrefixLine_ne_outOfFuel {env : LoadEnv} {pd : Option AddrIA} :
    readPrefixLine env buf pd ≠ .error .outOfFuel := by
  intro h
  simp only [readPrefixLine, parseAddrPrefix, bind, Except.bind] at h
  repeat' split at h
  all_goals cases h <;> simp_all

end FuelFree

/-- A reader loop run on `s` that did not run out of fuel, and whose stream `out` at the end
has no more left than `s`. -/
structure Progress {α : Type} (s : Stream) (out : α → Stream) (r : Except Fault α) : Prop where
  fueled : r ≠ .error .outOfFuel
  shrinks : ∀ a, r = .ok a → (out a).rest.length ≤ s.rest.length

namespace Progress

variable {α β : Type} {s s' : Stream} {out : α → Stream} {o : β → Stream}

theorem pure {a : α} (h : (out a).rest.length ≤ s.rest.length) : Progress s out (pure a) :=
  ⟨pure_ne_error a _, fun _ ha => by cases ha; exact h⟩

theorem mono {r : Except Fault α} (hp : Progress s' out r)
    (h : s'.rest.length ≤ s.rest.length) : Progress s out r :=
  ⟨hp.fueled, fun a ha => (hp.shrinks a ha).trans h⟩

/-- A step that reads no stream, then a run. -/
theorem bind_fueled {x : Except Fault β} {f : β → Except Fault α}
    (hx : x ≠ .error .outOfFuel) (hf : ∀ b, x = .ok b → Progress s out (f b)) :
    Progress s out (x >>= f) := by
  cases x with
  | error e => exact ⟨by rintro ⟨⟩; exact hx rfl, nofun⟩
  | ok b => exact hf b rfl

/-- Two runs in a row; the second starts where the first stopped. -/
theorem bind {x : Except Fault β} {f : β → Except Fault α} (hx : Progress s o x)
    (hf : ∀ b, x = .ok b → (o b).rest.length ≤ s.rest.length → Progress (o b) out (f b)) :
    Progress s out (x >>= f) := by
  cases x with
  | error e => exact ⟨by rintro ⟨⟩; exact hx.fueled rfl, nofun⟩
  | ok b => exact (hf b rfl (hx.shrinks b rfl)).mono (hx.shrinks b rfl)

end Progress

section Loops

variable (env : LoadEnv)

theorem parseAddrTA_progress : ∀ fuel (s : Stream), s.rest.length < fuel →
    Progress s id (parseAddrTA fuel s)
  | 0, _, h => absurd h (Nat.not_lt_zero _)
  | fuel + 1, s, h => by
    unfold parseAddrTA
    by_cases he : s.eof
    · rw [if_pos he]; exact Progress.pure le_rfl
    rw [if_neg he]
    rcases hf : fgets s with ⟨_ | buf, s₁⟩
    · exact Progress.pure (by simp [(fgets_eq_none hf).2])
    have hlt := fgets_rest_length_lt hf
    dsimp only
    split
    · exact Progress.pure hlt.le
    · exact (parseAddrTA_progress fuel s₁ (by omega)).mono hlt.le

theorem parseAddrIA_progress (n : AssignmentNumbers) (name : List Char) :
    ∀ fuel (ia : Option AddrIA) (s : Stream), s.rest.length < fuel →
      Progress s Prod.snd (parseAddrIA env n name fuel ia s)
  | 0, _, _, h => absurd h (Nat.not_lt_zero _)
  | fuel + 1, ia, s, h => by
    unfold parseAddrIA
    by_cases he : s.eof
    · rw [if_pos he]; exact Progress.pure le_rfl
    rw [if_neg he]
    rcases hf : fgets s with ⟨_ | buf, s₁⟩
    · exact Progress.pure (by simp [(fgets_eq_none hf).2])
    have hlt := fgets_rest_length_lt hf
    have ih : ∀ ia, Progress s Prod.snd (parseAddrIA env n name fuel ia s₁) :=
      fun ia => (parseAddrIA_progress n name fuel ia s₁ (by omega)).mono hlt.le
    dsimp only
    by_cases h₁ : contains buf "<duid"
    · rw [if_pos h₁]; exact Progress.bind_fueled readDuid_ne_outOfFuel fun _ _ => ih _
    rw [if_neg h₁]
    by_cases h₂ : contains buf "<fqdnDnsServer>"
    · rw [if_pos h₂]; exact Progress.bind_fueled readFqdnDnsServer_ne_outOfFuel fun _ _ => ih _
    rw [if_neg h₂]
    by_cases h₃ : contains buf "<fqdn "
    · rw [if_pos h₃]; exact Progress.bind_fueled readFqdn_ne_outOfFuel fun _ _ => ih _
    rw [if_neg h₃]
    refine Progress.bind_fueled readAddrLine_ne_outOfFuel fun b _ => ?_
    obtain ⟨ia', buf'⟩ := b
    dsimp only
    split
    · exact Progress.pure hlt.le
    · exact ih _

theorem parseAddrPD_progress (n : AssignmentNumbers) (name : List Char) :
    ∀ fuel (pd : Option AddrIA) (s : Stream), s.rest.length < fuel →
      Progress s Prod.snd (parseAddrPD env n name fuel pd s)
  | 0, _, _, h => absurd h (Nat.not_lt_zero _)
  | fuel + 1, pd, s, h => by
    unfold parseAddrPD
    by_cases he : s.eof
    · rw [if_pos he]; exact Progress.pure le_rfl
    rw [if_neg he]
    rcases hf : fgets s with ⟨_ | buf, s₁⟩
    · exact Progress.pure (by simp [(fgets_eq_none hf).2])
    have hlt := fgets_rest_length_lt hf
    have ih : ∀ pd, Progress s Prod.snd (parseAddrPD env n name fuel pd s₁) :=
      fun pd => (parseAddrPD_progress n name fuel pd s₁ (by omega)).mono hlt.le
    dsimp only
    split
    · exact Progress.bind_fueled readDuid_ne_outOfFuel fun _ _ => ih _
    refine Progress.bind_fueled readPrefixLine_ne_outOfFuel fun b _ => ?_
    obtain ⟨pd', buf'⟩ := b
    dsimp only
    split
    · exact Progress.pure hlt.le
    · exact ih _

theorem clientPDLine_progress {fuel : Nat} (st : ClientScan) (buf : List Char) {s : Stream}
    (h : s.rest.length < fuel) :
    Progress s (fun r => r.2.2) (clientPDLine env fuel st buf s) := by
  unfold clientPDLine
  lift_lets
  intro jp
  have hjp : ∀ (s₀ : Stream) (r : Option Bool × ClientScan × Stream × List Char),
      r.2.2.1.rest.length ≤ s₀.rest.length → Progress s₀ (fun r => r.2.2) (jp r) := by
    rintro s₀ ⟨_ | _, st', s', buf'⟩ h' <;> exact Progress.pure h'
  split
  · refine Progress.bind_fueled readNumbers_ne_outOfFuel fun n _ => ?_
    refine Progress.bind_fueled readPDUnicast_ne_outOfFuel fun b _ => ?_
    refine Progress.bind_fueled readIfacename_ne_outOfFuel fun name _ => ?_
    refine Progress.bind (parseAddrPD_progress env n name fuel none s h) fun b' _ _ => ?_
    exact hjp b'.2 _ (by dsimp only; split <;> exact le_rfl)
  · exact hjp s (none, st, s, buf) le_rfl

theorem clientLine_progress {fuel : Nat} (st : ClientScan) (buf : List Char) {s : Stream}
    (h : s.rest.length < fuel) :
    Progress s (fun r => r.2.2) (clientLine env fuel st buf s) := by
  unfold clientLine
  split
  · exact Progress.bind_fueled readDuid_ne_outOfFuel fun _ _ => Progress.pure le_rfl
  lift_lets
  intro jp
  have hjp : ∀ b, Progress s (fun r => r.2.2) (jp b) := by
    rintro ⟨buf', st'⟩
    dsimp -zeta only [jp]
    lift_lets
    intro jp'
    have hjp' : ∀ r : Option AddrIA × ClientScan × Stream, r.2.2.rest.length < fuel →
        Progress r.2.2 (fun r => r.2.2) (jp' r) := by
      rintro ⟨ia, st'', s'⟩ hr
      dsimp only [jp'] at hr ⊢
      split
      · exact Progress.pure le_rfl
      split
      · exact Progress.bind (o := id) (parseAddrTA_progress fuel s' hr) fun s'' _ hs'' =>
          clientPDLine_progress env _ _ (s := s'') (by simp only [id] at hs''; omega)
      · exact clientPDLine_progress env _ _ hr
    split
    · refine Progress.bind_fueled readNumbers_ne_outOfFuel fun n _ => ?_
      refine Progress.bind_fueled readIfacename_ne_outOfFuel fun name _ => ?_
      refine Progress.bind_fueled readUnicast_ne_outOfFuel fun u _ => ?_
      exact Progress.bind (parseAddrIA_progress env n name fuel none s h) fun b _ hb =>
        hjp' (b.1, _, b.2) (hb.trans_lt h)
    · exact hjp' (none, st', s) h
  split
  · exact Progress.bind_fueled readReconfigureKey_ne_outOfFuel fun ⟨buf', key⟩ _ =>
      hjp (buf', { st with reconfKey := key })
  · exact hjp (buf, st)

theorem parseAddrClientLoop_progress :
    ∀ fuel (st : ClientScan) (s : Stream), s.rest.length < fuel →
      Progress s Prod.snd (parseAddrClientLoop env fuel st s)
  | 0, _, _, h => absurd h (Nat.not_lt_zero _)
  | fuel + 1, st, s, h => by
    unfold parseAddrClientLoop
    by_cases he : s.eof
    · rw [if_pos he]; exact Progress.pure le_rfl
    rw [if_neg he]
    rcases hf : fgets s with ⟨_ | buf, s₁⟩
    · exact Progress.pure (by simp [(fgets_eq_none hf).2])
    have hlt := fgets_rest_length_lt hf
    dsimp only
    refine (Progress.bind (clientLine_progress env st buf (by omega)) fun r _ hr => ?_).mono hlt.le
    obtain ⟨more, st', s₂⟩ := r
    dsimp only at hr ⊢
    split
    · exact parseAddrClientLoop_progress fuel st' s₂ (by omega)
    · exact Progress.pure le_rfl

theorem loadLoop_ne_outOfFuel :
    ∀ fuel tag (clnt : Option AddrClient) (m : AddrMgr) (s : Stream), s.rest.length < fuel →
      loadLoop env fuel tag clnt m s ≠ .error .outOfFuel
  | 0, _, _, _, _, h => absurd h (Nat.not_lt_zero _)
  | fuel + 1, tag, clnt, m, s, h => by
    unfold loadLoop
    by_cases he : s.eof
    · rw [if_pos he]; exact pure_ne_error _ _
    rw [if_neg he]
    rcases hf : fgets s with ⟨_ | buf, s₁⟩
    · exact pure_ne_error _ _
    have hlt := fgets_rest_length_lt hf
    have ih : ∀ tag clnt m, loadLoop env fuel tag clnt m s₁ ≠ .error .outOfFuel :=
      fun tag clnt m => loadLoop_ne_outOfFuel fuel tag clnt m s₁ (by omega)
    dsimp only
    by_cases h₁ : contains buf "<AddrMgr>"
    · rw [if_pos h₁]; exact ih _ _ _
    rw [if_neg h₁]
    by_cases h₂ : contains buf "<timestamp>"
    · rw [if_pos h₂]; exact ih _ _ _
    rw [if_neg h₂]
    cases h₃ : findSub "<replayDetection>".toList buf with
    | some i => exact ih _ _ _
    | none =>
    dsimp only
    by_cases h₄ : (tag && contains buf "<AddrClient") = true
    · rw [if_pos h₄]
      have hc := parseAddrClientLoop_progress env fuel ⟨none, none, []⟩ s₁ (by omega)
      refine bind_ne_outOfFuel hc.fueled fun r hr => ?_
      have h₅ := hc.shrinks r hr
      obtain ⟨c, s₂⟩ := r
      have ih₂ : ∀ tag clnt m, loadLoop env fuel tag clnt m s₂ ≠ .error .outOfFuel :=
        fun tag clnt m => loadLoop_ne_outOfFuel fuel tag clnt m s₂ (by dsimp only at h₅; omega)
      cases c with
      | some c => exact ih₂ _ _ _
      | none => dsimp only; split; exacts [pure_ne_error _ _, ih₂ _ _ _]
    rw [if_neg h₄]
    split
    · exact pure_ne_error _ _
    · exact ih _ _ _

end Loops

/-- The reader never runs out of fuel: each pass of each loop consumes a line, so the
file's length plus one passes suffice, and a load fails only by a fault of the C code. -/
theorem xmlLoadBuiltIn_ne_outOfFuel (env : LoadEnv) (m : AddrMgr) (text : List Char) :
    xmlLoadBuiltIn env m text ≠ .error .outOfFuel :=
  loadLoop_ne_outOfFuel env _ false none m _ (Nat.lt_succ_self text.length)

/-- An `<fqdn ` line whose tag misses its `>`: `beg = strstr(buf, ">") + 1` is `NULL + 1`, the
test `if (!beg)` meant for this line cannot fire, and `strstr(beg, "<")` is called on it. The
loader faults whatever the hooks and the manager it fills. -/
theorem xmlLoadBuiltIn_fqdn_without_gt (env : LoadEnv) (m : AddrMgr) :
    xmlLoadBuiltIn env m
      "<AddrMgr>\n<AddrClient>\n<AddrIA >\n<fqdn duid=\"01\" used=\"TRUE\"\n".toList =
      .error .badPointer := by
  rfl

/-- A dump of one delegated prefix `2001:db8::10`, cut inside the address: the load keeps the
client and its PD and gives it the prefix `2001:db8::1`, which the whole dump does not
hold. -/
theorem truncated_dump_loads_other_prefix :
    let p : IPv6Addr := ⟨[0x2001, 0xdb8, 0, 0, 0, 0, 0, 0x10], rfl⟩
    let m := (AddrMgr.empty.addPrefix ⟨[1]⟩ none "eth0".toList 2 1 0 0 (some p) 5 5 64 7).2
    let s := m.write 0
    let env : LoadEnv := ⟨fun _ => true, fun _ => true, 128, 0, fun _ => ⟨List.replicate 8 0, rfl⟩⟩
    (xmlLoadBuiltIn env AddrMgr.empty s).map (·.2.leaseEntries) =
        .ok [(⟨⟨[1]⟩, 1, p⟩, ⟨64, 5, 5⟩)] ∧
      (xmlLoadBuiltIn env AddrMgr.empty (s.take (s.length -
        "0</AddrPrefix>\n    </AddrPD>\n  </AddrClient>\n</AddrMgr>\n".length))).map
        (·.2.leaseEntries) =
        .ok [(⟨⟨[1]⟩, 1, ⟨[0x2001, 0xdb8, 0, 0, 0, 0, 0, 1], rfl⟩⟩, ⟨64, 5, 5⟩)] := by
  simp only
  set_option maxRecDepth 100000 in decide

end Dibbler
