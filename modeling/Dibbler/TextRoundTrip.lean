import Mathlib.Data.Nat.Digits
import Dibbler.Text
import Dibbler.Search

/-! Every value the writer prints is read back by the reader's conversion: `atoi` and
`stringstream >>` give back a printed number (`atoi` modulo `2^32`), `TDUID` and `textToHex`
give back the bytes, and `TIPv6Addr` gives back the address from its canonical text. Also the
characters each printed form can hold, which the search lemmas need. -/

namespace Dibbler

section Digits

/-- `Nat.toDigitsCore` writes the base-`b` digits of `n`, most significant first, when it has
more fuel than `n`. -/
theorem toDigitsCore_digits {b : Nat} (hb : 1 < b) :
    ∀ (fuel n : Nat) (ds : List Char), n < fuel →
      ∃ digits : List Nat, digits ≠ [] ∧ (∀ d ∈ digits, d < b) ∧
        digits.foldl (fun acc d => b * acc + d) 0 = n ∧
        Nat.toDigitsCore b fuel n ds = digits.map Nat.digitChar ++ ds
  | 0, n, _, h => absurd h (Nat.not_lt_zero n)
  | fuel + 1, n, ds, h => by
    unfold Nat.toDigitsCore
    have hmod : n % b < b := Nat.mod_lt n (by omega)
    by_cases hq : n / b = 0
    · refine ⟨[n % b], by simp, by simpa using hmod, ?_, by simp [hq]⟩
      have : n < b := by
        rcases Nat.lt_or_ge n b with h | h
        · exact h
        · exact absurd hq (Nat.div_ne_zero_iff (by omega) |>.mpr h)
      simp [Nat.mod_eq_of_lt this]
    · have hlt : n / b < fuel := by
        have := Nat.div_lt_self (n := n) (by
          rcases Nat.eq_zero_or_pos n with rfl | h
          · simp at hq
          · exact h) hb
        omega
      obtain ⟨digits, hne, hlt', hval, heq⟩ :=
        toDigitsCore_digits hb fuel (n / b) (Nat.digitChar (n % b) :: ds) hlt
      refine ⟨digits ++ [n % b], by simp, ?_, ?_, ?_⟩
      · simpa [or_imp, forall_and] using ⟨hlt', hmod⟩
      · rw [List.foldl_append, hval]
        simp [Nat.div_add_mod]
      · simp only [hq, if_false, heq, List.map_append, List.map_cons, List.map_nil,
          List.append_assoc, List.singleton_append]

theorem toDigits_digits {b : Nat} (hb : 1 < b) (n : Nat) :
    ∃ digits : List Nat, digits ≠ [] ∧ (∀ d ∈ digits, d < b) ∧
      digits.foldl (fun acc d => b * acc + d) 0 = n ∧
      Nat.toDigits b n = digits.map Nat.digitChar := by
  obtain ⟨digits, h₁, h₂, h₃, h₄⟩ := toDigitsCore_digits hb (n + 1) n [] (Nat.lt_succ_self n)
  exact ⟨digits, h₁, h₂, h₃, by simpa using h₄⟩

theorem digitChar_isDigit : ∀ d, d < 10 → (Nat.digitChar d).isDigit = true := by decide

theorem digitChar_value : ∀ d, d < 10 → (Nat.digitChar d).toNat - '0'.toNat = d := by decide

theorem hexValue_digitChar : ∀ d, d < 16 → hexValue (Nat.digitChar d) = some d := by decide

theorem digitsValue_map_digitChar {ds : List Nat} (h : ∀ d ∈ ds, d < 10) (acc : Nat) :
    ds.foldl (fun n d => 10 * n + d) acc =
      (ds.map Nat.digitChar).foldl (fun n c => 10 * n + (c.toNat - '0'.toNat)) acc := by
  induction ds generalizing acc with
  | nil => rfl
  | cons d ds ih =>
    simp only [List.mem_cons, forall_eq_or_imp] at h
    simp only [List.foldl_cons, List.map_cons, digitChar_value d h.1, ih h.2]

end Digits

section Decimal

variable {x : Nat} {rest : List Char}

theorem decimal_ne_nil : decimal x ≠ [] := by
  obtain ⟨ds, hne, -, -, h⟩ := toDigits_digits (by norm_num : 1 < 10) x
  simpa [decimal, h] using hne

theorem isDigit_of_mem_decimal {c : Char} (h : c ∈ decimal x) : c.isDigit = true := by
  obtain ⟨ds, -, hlt, -, heq⟩ := toDigits_digits (by norm_num : 1 < 10) x
  rw [decimal, heq, List.mem_map] at h
  obtain ⟨d, hd, rfl⟩ := h
  exact digitChar_isDigit d (hlt d hd)

theorem digitsValue_decimal : digitsValue (decimal x) = x := by
  obtain ⟨ds, -, hlt, hval, heq⟩ := toDigits_digits (by norm_num : 1 < 10) x
  rw [digitsValue, decimal, heq, ← digitsValue_map_digitChar hlt, hval]

theorem isSpace_of_isDigit {c : Char} (h : c.isDigit = true) : isSpace c = false := by
  cases hs : isSpace c
  · rfl
  · simp only [isSpace, Bool.or_eq_true, decide_eq_true_eq] at hs
    rcases hs with ((((rfl | rfl) | rfl) | rfl) | rfl) | rfl <;> simp at h

/-- What a number reader sees of a printed number followed by a non-digit. -/
theorem decimal_append_scan (hr : ∀ c ∈ rest.head?, c.isDigit = false) :
    (decimal x ++ rest).dropWhile isSpace = decimal x ++ rest ∧
      takeSign (decimal x ++ rest) = (false, decimal x ++ rest) ∧
      (decimal x ++ rest).takeWhile Char.isDigit = decimal x := by
  obtain ⟨c, cs, hcs⟩ := List.exists_cons_of_ne_nil (decimal_ne_nil (x := x))
  have hc : c.isDigit = true := isDigit_of_mem_decimal (by rw [hcs]; exact List.mem_cons_self _ _)
  refine ⟨?_, ?_, ?_⟩
  · rw [hcs, List.cons_append, List.dropWhile_cons_of_neg (by simp [isSpace_of_isDigit hc])]
  · rw [hcs, List.cons_append]
    unfold takeSign
    split
    · next h => cases h; simp at hc
    · next h => cases h; simp at hc
    · rfl
  · rw [List.takeWhile_append_of_pos (fun _ => isDigit_of_mem_decimal)]
    cases rest with
    | nil => simp
    | cons r rs => simp [List.takeWhile_cons_of_neg, show r.isDigit = false by simpa using hr]

theorem strtol_decimal_append (hx : x < 2 ^ 63) (hr : ∀ c ∈ rest.head?, c.isDigit = false) :
    strtol (decimal x ++ rest) = x := by
  obtain ⟨h₁, h₂, h₃⟩ := decimal_append_scan (x := x) hr
  simp only [strtol, h₁, h₂, h₃, digitsValue_decimal, Bool.false_eq_true, if_false]
  omega

theorem atoiText_decimal_append (hx : x < 2 ^ 63) (hr : ∀ c ∈ rest.head?, c.isDigit = false) :
    atoiText (decimal x ++ rest) = BitVec.ofNat 32 x := by
  rw [atoiText, strtol_decimal_append hx hr, BitVec.ofInt_natCast]

theorem extractU64_decimal_append (hx : x < 2 ^ 64) (hr : ∀ c ∈ rest.head?, c.isDigit = false) :
    extractU64 (decimal x ++ rest) = UInt64.ofNat x := by
  obtain ⟨h₁, h₂, h₃⟩ := decimal_append_scan (x := x) hr
  simp only [extractU64, h₁, h₂, h₃, digitsValue_decimal, decimal_ne_nil, if_false,
    Bool.false_eq_true]
  rw [if_neg (by omega)]

theorem toInt_bounds (v : BitVec 32) : -2 ^ 31 ≤ v.toInt ∧ v.toInt < 2 ^ 31 := by
  have := v.isLt
  rw [BitVec.toInt_eq_toNat_cond]
  split <;> omega

theorem ofInt_toInt (v : BitVec 32) : BitVec.ofInt 32 v.toInt = v :=
  BitVec.eq_of_toInt_eq (by rw [BitVec.toInt_ofInt, BitVec.toInt_eq_toNat_bmod, Int.bmod_bmod])

theorem strtol_signedDecimal_append {v : BitVec 32}
    (hr : ∀ c ∈ rest.head?, c.isDigit = false) : strtol (signedDecimal v ++ rest) = v.toInt := by
  have hb := toInt_bounds v
  have hcond := BitVec.toInt_eq_toNat_cond v
  unfold signedDecimal
  split
  · next hneg =>
    obtain ⟨-, -, h₃⟩ := decimal_append_scan (x := v.toInt.natAbs) hr
    simp only [strtol, List.cons_append, List.dropWhile_cons_of_neg (by decide :
      ¬ isSpace '-' = true), takeSign, h₃, digitsValue_decimal, if_true]
    omega
  · next hpos =>
    have := v.isLt
    rw [strtol_decimal_append (by omega) hr]
    split at hcond <;> omega

theorem atoiText_signedDecimal_append {v : BitVec 32}
    (hr : ∀ c ∈ rest.head?, c.isDigit = false) : atoiText (signedDecimal v ++ rest) = v := by
  rw [atoiText, strtol_signedDecimal_append hr, ofInt_toInt]

end Decimal

section Hex

/-- The characters of the hexadecimal forms: decimal digits, `a` to `f`, and the colon. -/
def hexChar (c : Char) : Bool :=
  c = ':' || c.isDigit || ('a' ≤ c && c ≤ 'f')

theorem hexChar_digitChar : ∀ d, d < 16 → hexChar (Nat.digitChar d) = true := by decide

theorem digitChar_ne_colon : ∀ d, d < 16 → Nat.digitChar d ≠ ':' := by decide

theorem hexByte_digits (b : UInt8) : b.toNat / 16 < 16 ∧ b.toNat % 16 < 16 := by
  have := UInt8.toNat_lt_size b
  exact ⟨by simp only [UInt8.size] at this; omega, Nat.mod_lt _ (by norm_num)⟩

theorem mem_hexByte {b : UInt8} {c : Char} (h : c ∈ hexByte b) :
    hexChar c = true ∧ c ≠ ':' := by
  obtain ⟨h₁, h₂⟩ := hexByte_digits b
  simp only [hexByte, List.mem_cons, List.mem_singleton, List.not_mem_nil, or_false] at h
  rcases h with rfl | rfl
  · exact ⟨hexChar_digitChar _ h₁, digitChar_ne_colon _ h₁⟩
  · exact ⟨hexChar_digitChar _ h₂, digitChar_ne_colon _ h₂⟩

theorem hexPairs_hexToText (key : List UInt8) : hexPairs (hexToText key) = key := by
  induction key with
  | nil => rfl
  | cons b key ih =>
    obtain ⟨h₁, h₂⟩ := hexByte_digits b
    simp only [hexToText, List.map_cons, List.flatten_cons, hexByte, List.cons_append,
      List.nil_append] at ih ⊢
    rw [hexPairs, hexValue_digitChar _ h₁, hexValue_digitChar _ h₂, ih]
    simp only [Option.getD_some, List.cons.injEq, and_true]
    apply UInt8.toNat.inj
    have := UInt8.toNat_lt_size b
    rw [UInt8.toNat_ofNat_of_lt (by simp only [UInt8.size] at this ⊢; omega)]
    omega

theorem mem_hexToText {key : List UInt8} {c : Char} (h : c ∈ hexToText key) :
    hexChar c = true ∧ c ≠ ':' := by
  simp only [hexToText, List.mem_flatten, List.mem_map] at h
  obtain ⟨_, ⟨b, -, rfl⟩, hc⟩ := h
  exact mem_hexByte hc

/-- `textToHex` reads back the key `hexToText` printed. -/
theorem textToHex_hexToText (key : List UInt8) : textToHex (hexToText key) = key := by
  rw [textToHex, List.filter_eq_self.mpr (fun c hc => by simpa using (mem_hexToText hc).2),
    hexPairs_hexToText]

theorem colon_intercalate_cons_cons (a b : List Char) (l : List (List Char)) :
    ":".toList.intercalate (a :: b :: l) = a ++ ':' :: ":".toList.intercalate (b :: l) := by
  simp [List.intercalate, List.intersperse_cons_cons]

theorem mem_colon_intercalate {ls : List (List Char)} {c : Char}
    (h : c ∈ ":".toList.intercalate ls) : c = ':' ∨ ∃ l ∈ ls, c ∈ l := by
  match ls, h with
  | [a], h => exact Or.inr ⟨a, List.mem_singleton_self a, by simpa [List.intercalate] using h⟩
  | a :: b :: l, h =>
    rw [colon_intercalate_cons_cons, List.mem_append, List.mem_cons] at h
    rcases h with h | h | h
    · exact Or.inr ⟨a, List.mem_cons_self _ _, h⟩
    · exact Or.inl h
    · rcases mem_colon_intercalate h with h | ⟨l', hl', hc⟩
      · exact Or.inl h
      · exact Or.inr ⟨l', List.mem_cons_of_mem _ hl', hc⟩

theorem filter_ne_colon_of_not_mem {l : List Char} (h : ':' ∉ l) : l.filter (· ≠ ':') = l :=
  List.filter_eq_self.mpr fun c hc => decide_eq_true fun e => h (by rw [← e]; exact hc)

theorem filter_colon_intercalate : ∀ {ls : List (List Char)}, (∀ l ∈ ls, ':' ∉ l) →
    (":".toList.intercalate ls).filter (· ≠ ':') = ls.flatten
  | [], _ => rfl
  | [a], h => by
    simpa [List.intercalate] using filter_ne_colon_of_not_mem (h a (List.mem_singleton_self a))
  | a :: b :: l, h => by
    rw [colon_intercalate_cons_cons, List.filter_append,
      filter_ne_colon_of_not_mem (h a (List.mem_cons_self _ _)),
      List.filter_cons_of_neg (by simp),
      filter_colon_intercalate (fun l' hl' => h l' (List.mem_cons_of_mem _ hl'))]
    simp

theorem mem_duid_plain {d : Duid} {c : Char} (h : c ∈ d.plain) : hexChar c = true := by
  rcases mem_colon_intercalate h with rfl | ⟨l, hl, hc⟩
  · rfl
  · obtain ⟨b, -, rfl⟩ := List.mem_map.mp hl
    exact (mem_hexByte hc).1

/-- `TDUID(const char *)` reads back the bytes `getPlain()` printed. -/
theorem Duid.ofText_plain (d : Duid) : Duid.ofText d.plain = d := by
  rw [Duid.ofText, textToHex, Duid.plain, filter_colon_intercalate, ← hexToText,
    hexPairs_hexToText]
  intro l hl hc
  obtain ⟨b, -, rfl⟩ := List.mem_map.mp hl
  exact (mem_hexByte hc).2 rfl

end Hex

section IPv6

theorem hexGroup_digits (g : UInt16) :
    ∃ ds : List Nat, ds ≠ [] ∧ ds.length ≤ 4 ∧ (∀ d ∈ ds, d < 16) ∧
      ds.foldl (fun n d => 16 * n + d) 0 = g.toNat ∧ hexGroup g = ds.map Nat.digitChar := by
  obtain ⟨ds, h₁, h₂, h₃, h₄⟩ := toDigits_digits (by norm_num : 1 < 16) g.toNat
  have hlen : (hexGroup g).length ≤ 4 := Nat.toDigitsCore_length 16 (by norm_num) _ _ 4
    (by simpa [UInt16.size] using UInt16.toNat_lt_size g) (by norm_num)
  rw [hexGroup, h₄, List.length_map] at hlen
  exact ⟨ds, h₁, hlen, h₂, h₃, h₄⟩

theorem mem_hexGroup {g : UInt16} {c : Char} (h : c ∈ hexGroup g) :
    hexChar c = true ∧ c ≠ ':' := by
  obtain ⟨ds, -, -, hlt, -, heq⟩ := hexGroup_digits g
  rw [heq, List.mem_map] at h
  obtain ⟨d, hd, rfl⟩ := h
  exact ⟨hexChar_digitChar d (hlt d hd), digitChar_ne_colon d (hlt d hd)⟩

theorem hexGroup_ne_nil (g : UInt16) : hexGroup g ≠ [] := by
  obtain ⟨ds, hne, -, -, -, heq⟩ := hexGroup_digits g
  simpa [heq] using hne

theorem mapM_hexValue {ds : List Nat} (h : ∀ d ∈ ds, d < 16) :
    (ds.map Nat.digitChar).mapM hexValue = some ds := by
  induction ds with
  | nil => rfl
  | cons d ds ih =>
    simp only [List.mem_cons, forall_eq_or_imp] at h
    simp only [List.map_cons, List.mapM_cons, hexValue_digitChar d h.1, ih h.2]
    rfl

theorem parseGroup_hexGroup (g : UInt16) : parseGroup (hexGroup g) = some g := by
  obtain ⟨ds, hne, hlen, hlt, hval, heq⟩ := hexGroup_digits g
  have hpos : 0 < ds.length := List.length_pos.mpr hne
  rw [parseGroup, heq, if_neg (by simp only [List.length_map]; omega), mapM_hexValue hlt]
  simp only [Option.map_some', hval, Option.some.injEq]
  exact UInt16.toNat.inj (UInt16.toNat_ofNat_of_lt (UInt16.toNat_lt_size g))

theorem joinGroups_cons (g : UInt16) (gs : List UInt16) :
    ∃ rest, joinGroups (g :: gs) = hexGroup g ++ rest := by
  cases gs with
  | nil => exact ⟨[], by simp [joinGroups, List.intercalate]⟩
  | cons g' gs => exact ⟨_, colon_intercalate_cons_cons _ _ _⟩

theorem mem_joinGroups {gs : List UInt16} {c : Char} (h : c ∈ joinGroups gs) :
    hexChar c = true := by
  rcases mem_colon_intercalate h with rfl | ⟨l, hl, hc⟩
  · rfl
  · obtain ⟨g, -, rfl⟩ := List.mem_map.mp hl
    exact (mem_hexGroup hc).1

/-- Groups never hold two colons in a row. -/
theorem skips_joinGroups : ∀ gs : List UInt16, Skips "::".toList (joinGroups gs) = true
  | [] => rfl
  | [g] => by
    simpa [joinGroups, List.intercalate] using
      skips_of_forall_ne (n := [':']) (fun c hc => (mem_hexGroup hc).2)
  | g :: g' :: gs => by
    obtain ⟨rest, hrest⟩ := joinGroups_cons g' gs
    obtain ⟨c, cs, hcs⟩ := List.exists_cons_of_ne_nil (hexGroup_ne_nil g')
    have hc : c ≠ ':' := (mem_hexGroup (g := g') (by rw [hcs]; exact List.mem_cons_self _ _)).2
    have hskip := skips_joinGroups (g' :: gs)
    rw [joinGroups, List.map_cons, List.map_cons, colon_intercalate_cons_cons]
    refine skips_append (skips_of_forall_ne (n := [':']) (fun c hc => (mem_hexGroup hc).2)) ?_
    show Skips _ (':' :: joinGroups (g' :: gs)) = true
    rw [hrest, hcs] at hskip ⊢
    simp only [List.cons_append] at hskip ⊢
    show (Clash "::".toList (':' :: c :: (cs ++ rest)) && Skips _ (c :: (cs ++ rest))) = true
    rw [hskip, Bool.and_true]
    simp [Clash, Ne.symm hc]

theorem findSub_colons_joinGroups (gs : List UInt16) : findSub "::".toList (joinGroups gs) = none := by
  simpa using findSub_append_of_skips (b := []) (skips_joinGroups gs)

theorem mapM_parseGroup (gs : List UInt16) : (gs.map hexGroup).mapM parseGroup = some gs := by
  induction gs with
  | nil => rfl
  | cons g gs ih =>
    simp only [List.map_cons, List.mapM_cons, parseGroup_hexGroup, ih]
    rfl

theorem parseGroups_joinGroups (gs : List UInt16) : parseGroups (joinGroups gs) = some gs := by
  cases gs with
  | nil => rfl
  | cons g gs =>
    obtain ⟨rest, hrest⟩ := joinGroups_cons g gs
    rw [parseGroups, if_neg (by rw [hrest]; simp [hexGroup_ne_nil]), joinGroups]
    rw [show ":".toList = [':'] from rfl, List.splitOn_intercalate _ _
      (fun l hl => by obtain ⟨g, -, rfl⟩ := List.mem_map.mp hl; exact fun h => (mem_hexGroup h).2 rfl)
      (by simp), mapM_parseGroup]

/-- What `zeroRun` picks: a run of at least two zero groups. -/
theorem zeroRun_spec {gs : List UInt16} {i len : Nat} (h : zeroRun gs = some (i, len)) :
    2 ≤ len ∧ i + len ≤ gs.length ∧ gs = gs.take i ++ List.replicate len 0 ++ gs.drop (i + len) := by
  have inv : ∀ (l : List Nat) (best : Option (Nat × Nat)),
      (∀ j k, best = some (j, k) → 2 ≤ k ∧ k = zeroRunAt gs j) →
      ∀ j k, l.foldl (fun best i =>
        let len := zeroRunAt gs i
        match best with
        | some (_, l) => if l < len then some (i, len) else best
        | none => if 2 ≤ len then some (i, len) else none) best = some (j, k) →
        2 ≤ k ∧ k = zeroRunAt gs j := by
    intro l
    induction l with
    | nil => exact fun best h => h
    | cons x l ih =>
      intro best hbest
      apply ih
      intro j k hjk
      rcases best with _ | ⟨j', l'⟩
      · simp only at hjk
        split at hjk
        · cases hjk; exact ⟨by assumption, rfl⟩
        · cases hjk
      · simp only at hjk
        split at hjk
        · cases hjk; exact ⟨by have := (hbest j' l' rfl).1; omega, rfl⟩
        · exact hbest j k hjk
  obtain ⟨h2, hk⟩ := inv _ none (by simp) i len h
  have hle : len ≤ (gs.drop i).length := hk ▸ List.IsPrefix.length_le (List.takeWhile_prefix _)
  have hzeros : (gs.drop i).take len = List.replicate len 0 := by
    rw [hk, zeroRunAt, ← List.prefix_iff_eq_take.mp (List.takeWhile_prefix _)]
    exact List.eq_replicate_iff.mpr ⟨rfl, fun b hb => by simpa using List.mem_takeWhile_imp hb⟩
  refine ⟨h2, by simp only [List.length_drop] at hle; omega, ?_⟩
  conv_lhs => rw [← List.take_append_drop i gs, ← List.take_append_drop len (gs.drop i)]
  rw [hzeros, List.drop_drop, List.append_assoc]

theorem mem_plain {a : IPv6Addr} {c : Char} (h : c ∈ a.plain) : hexChar c = true := by
  unfold IPv6Addr.plain at h
  split at h
  · exact mem_joinGroups h
  · simp only [List.mem_append] at h
    rcases h with (h | h) | h
    · exact mem_joinGroups h
    · simp only [String.toList, List.mem_cons, List.mem_singleton, or_self,
        List.not_mem_nil, or_false] at h
      subst h
      rfl
    · exact mem_joinGroups h

/-- `TIPv6Addr(const char *, true)` reads back the address `getPlain()` printed. -/
theorem IPv6Addr.ofText_plain (a : IPv6Addr) : IPv6Addr.ofText a.plain = some a := by
  obtain ⟨groups, hlen⟩ := a
  unfold IPv6Addr.plain
  split
  · next hrun =>
    simp only [IPv6Addr.ofText, findSub_colons_joinGroups, parseGroups_joinGroups]
    simp [hlen]
  · next i len hrun =>
    obtain ⟨h2, hfit, hsplit⟩ := zeroRun_spec hrun
    simp only at hfit hsplit
    have hfind : findSub "::".toList (joinGroups (groups.take i) ++ ("::".toList ++
        joinGroups (groups.drop (i + len)))) = some (joinGroups (groups.take i)).length := by
      rw [findSub_append_of_skips (skips_joinGroups _)]
      simp [findSub]
    have hdrop : (joinGroups (groups.take i) ++ ("::".toList ++
        joinGroups (groups.drop (i + len)))).drop ((joinGroups (groups.take i)).length + 2) =
        joinGroups (groups.drop (i + len)) := by
      rw [List.drop_append]
      rfl
    simp only [IPv6Addr.ofText, List.append_assoc, hfind, List.take_left, hdrop,
      parseGroups_joinGroups, findSub_colons_joinGroups]
    have hl : (groups.take i).length = i := by simp only [List.length_take]; omega
    have hr : (groups.drop (i + len)).length = 8 - (i + len) := by simp [hlen]
    simp only [hlen] at hfit
    simp only [Option.isSome_none, Bool.false_eq_true, if_false, List.length_append,
      List.length_replicate, Option.bind_eq_bind, Option.some_bind, hr, hl,
      Option.dite_none_right_eq_some, Option.some.injEq, IPv6Addr.mk.injEq, exists_prop]
    refine ⟨⟨by omega, by omega⟩, ?_⟩
    rw [show 8 - i - (8 - (i + len)) = len by omega, ← List.append_assoc, ← hsplit]

theorem plain_ne_nil (a : IPv6Addr) : a.plain ≠ [] := by
  intro h
  have := IPv6Addr.ofText_plain a
  rw [h] at this
  cases this

end IPv6

end Dibbler
