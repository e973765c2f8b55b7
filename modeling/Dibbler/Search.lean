import Dibbler.CString

/-! Where `strstr` finds a needle in a line the writer assembled from constant pieces and
field values. A piece *skips* a needle when no occurrence of it can start inside the piece,
whatever follows; then the search passes over the piece. A constant piece is checked by
`decide`, a value by the characters it cannot hold. -/

namespace Dibbler

/-- The two texts differ at a position both have. -/
def Clash : List Char → List Char → Bool
  | a :: as, b :: bs => a != b || Clash as bs
  | _, _ => false

/-- No occurrence of `needle` starts inside `hay`, whatever text follows it. -/
def Skips (needle : List Char) : List Char → Bool
  | [] => true
  | c :: hay => Clash needle (c :: hay) && Skips needle hay

section Search

variable {n a b v : List Char}

theorem clash_append (h : Clash n a = true) : Clash n (a ++ b) = true := by
  induction a generalizing n with
  | nil => cases n <;> simp [Clash] at h
  | cons c a ih =>
    cases n with
    | nil => simp [Clash] at h
    | cons x n =>
      simp only [Clash, Bool.or_eq_true, bne_iff_ne, List.cons_append] at h ⊢
      exact h.imp_right ih

theorem isPrefixOf_eq_false_of_clash (h : Clash n a = true) : n.isPrefixOf a = false := by
  induction a generalizing n with
  | nil => cases n <;> simp [Clash] at h
  | cons c a ih =>
    cases n with
    | nil => simp [Clash] at h
    | cons x n =>
      simp only [Clash, Bool.or_eq_true, bne_iff_ne] at h
      rcases h with h | h
      · simp [List.isPrefixOf_cons₂, h]
      · simp [List.isPrefixOf_cons₂, ih h]

/-- Two texts that do not clash: one is a prefix of the other. -/
theorem prefix_or_prefix_of_clash_eq_false (h : Clash n a = false) : n <+: a ∨ a <+: n := by
  induction a generalizing n with
  | nil => exact Or.inr (List.nil_prefix)
  | cons c a ih =>
    cases n with
    | nil => exact Or.inl (List.nil_prefix)
    | cons x n =>
      simp only [Clash, Bool.or_eq_false_iff, bne_eq_false_iff_eq] at h
      obtain ⟨rfl, h⟩ := h
      simpa only [List.cons_prefix_cons, true_and] using ih h

theorem findSub_le_length {k : Nat} (h : findSub n a = some k) : k + n.length ≤ a.length := by
  induction a generalizing k with
  | nil =>
    simp only [findSub, List.isEmpty_iff] at h
    split at h
    · next hn => cases h; simp [hn]
    · cases h
  | cons c a ih =>
    unfold findSub at h
    split at h
    · next hp =>
      cases h
      simpa using (List.isPrefixOf_iff_prefix.mp hp).length_le
    · obtain ⟨k, hk, rfl⟩ := Option.map_eq_some'.mp h
      have := ih hk
      simp only [List.length_cons]
      omega

/-- A needle found inside `a` is found there in any text `a` starts. -/
theorem findSub_append_of_some {k : Nat} (h : findSub n a = some k) :
    findSub n (a ++ b) = some k := by
  induction a generalizing k with
  | nil =>
    simp only [findSub, List.isEmpty_iff] at h
    split at h
    · next hn => cases h; subst hn; cases b <;> simp [findSub]
    · cases h
  | cons c a ih =>
    unfold findSub at h
    rw [List.cons_append, findSub]
    split at h
    · next hp =>
      cases h
      rw [← List.cons_append, if_pos (List.isPrefixOf_iff_prefix.mpr
        ((List.isPrefixOf_iff_prefix.mp hp).trans (List.prefix_append _ _)))]
    · next hp =>
      obtain ⟨k, hk, rfl⟩ := Option.map_eq_some'.mp h
      have hfit := findSub_le_length hk
      have hnot : ¬ n <+: c :: a ++ b := fun hpre =>
        hp (List.isPrefixOf_iff_prefix.mpr
          (List.prefix_of_prefix_length_le hpre (List.prefix_append _ _) (by simp; omega)))
      rw [← List.cons_append, if_neg (by rwa [List.isPrefixOf_iff_prefix]), ih hk]
      rfl

/-- A text that starts with the needle: found at once. -/
theorem findSub_self_append {c : Char} : findSub (c :: n) ((c :: n) ++ b) = some 0 := by
  rw [List.cons_append, findSub, if_pos (List.isPrefixOf_iff_prefix.mpr
    (by rw [← List.cons_append]; exact List.prefix_append _ _))]

/-- The search passes over a piece that skips the needle. -/
theorem findSub_append_of_skips (h : Skips n a = true) :
    findSub n (a ++ b) = (findSub n b).map (· + a.length) := by
  induction a with
  | nil => simp
  | cons c a ih =>
    simp only [Skips, Bool.and_eq_true] at h
    rw [List.cons_append, findSub, if_neg (by
      rw [← List.cons_append, isPrefixOf_eq_false_of_clash (clash_append h.1)]; simp),
      ih h.2, Option.map_map]
    congr 1

/-- The search passes over a piece followed by `c` when the piece with `c` skips the needle. -/
theorem findSub_append_cons_of_skips {c : Char} (h : Skips n (a ++ [c]) = true) :
    findSub n (a ++ c :: b) = (findSub n (c :: b)).map (· + a.length) := by
  induction a with
  | nil => simp
  | cons x a ih =>
    have h' : (Clash n (x :: (a ++ [c])) && Skips n (a ++ [c])) = true := h
    rw [Bool.and_eq_true] at h'
    rw [List.cons_append, findSub, if_neg (by
      rw [show x :: (a ++ c :: b) = (x :: (a ++ [c])) ++ b by simp,
        isPrefixOf_eq_false_of_clash (clash_append h'.1)]; simp),
      ih h'.2, Option.map_map]
    congr 1

theorem skips_append (ha : Skips n a = true) (hb : Skips n b = true) :
    Skips n (a ++ b) = true := by
  induction a with
  | nil => simpa using hb
  | cons c a ih =>
    simp only [Skips, Bool.and_eq_true] at ha
    simp only [List.cons_append, Skips, Bool.and_eq_true]
    exact ⟨by simpa using clash_append (b := b) ha.1, ih ha.2⟩

/-- A piece without the needle's first character skips it. -/
theorem skips_of_forall_ne {x : Char} (h : ∀ c ∈ a, c ≠ x) : Skips (x :: n) a = true := by
  induction a with
  | nil => rfl
  | cons c a ih =>
    simp only [List.mem_cons, forall_eq_or_imp] at h
    simp [Skips, Clash, Ne.symm h.1, ih h.2]

/-- A value without the needle, followed by text that skips the needle and starts with a
character the needle holds at most at its start, skips it: an occurrence starting in the value
would have to hold that character further in. -/
theorem skips_append_cons {d : Char} {w : List Char} (hv : findSub n v = none) (hd : d ∉ n.tail)
    (hw : Skips n (d :: w) = true) : Skips n (v ++ d :: w) = true := by
  induction v with
  | nil => exact hw
  | cons c v ih =>
    unfold findSub at hv
    split at hv
    · cases hv
    · next hp =>
      simp only [Option.map_eq_none'] at hv
      have hclash : Clash n (c :: v ++ [d]) = true := by
        cases hc : Clash n (c :: v ++ [d])
        · rcases prefix_or_prefix_of_clash_eq_false hc with h | ⟨t, rfl⟩
          · rcases List.prefix_concat_iff.mp h with h | h
            · exact absurd (by rw [h]; simp) hd
            · exact absurd (List.isPrefixOf_iff_prefix.mpr h) hp
          · exact absurd (by simp) hd
        · rfl
      show (Clash n (c :: (v ++ d :: w)) && Skips n (v ++ d :: w)) = true
      rw [ih hv, show c :: (v ++ d :: w) = (c :: v ++ [d]) ++ w by simp, clash_append hclash]
      rfl

/-- A value without the needle, closed by a delimiter the needle does not hold, skips it. -/
theorem skips_append_delim {d : Char} (hv : findSub n v = none) (hd : d ∉ n) (hn : n ≠ []) :
    Skips n (v ++ [d]) = true := by
  obtain ⟨x, n, rfl⟩ := List.exists_cons_of_ne_nil hn
  have hx : x ≠ d := fun h => hd (h ▸ List.mem_cons_self _ _)
  exact skips_append_cons hv (fun h => hd (List.mem_of_mem_tail h)) (by simp [Skips, Clash, hx])

/-- `strstr` finds a needle exactly where it occurs. -/
theorem findSub_isSome_iff : ∀ {l : List Char}, (findSub n l).isSome ↔ n <:+: l
  | [] => by cases n <;> simp [findSub]
  | c :: l => by
    rw [List.infix_cons_iff, ← findSub_isSome_iff, findSub, ← List.isPrefixOf_iff_prefix]
    by_cases h : n.isPrefixOf (c :: l) <;> simp [h]

theorem findSub_eq_none_of_not_mem {c : Char} {hay : List Char} (hc : c ∈ n)
    (hv : c ∉ hay) : findSub n hay = none := by
  induction hay with
  | nil =>
    simp only [findSub, List.isEmpty_iff]
    rw [if_neg (List.ne_nil_of_mem hc)]
  | cons x hay ih =>
    simp only [List.mem_cons, not_or] at hv
    rw [findSub, if_neg, ih hv.2, Option.map_none']
    intro hp
    have := (List.isPrefixOf_iff_prefix.mp hp).subset hc
    simp only [List.mem_cons] at this
    exact this.elim hv.1 hv.2

end Search

section Pointers

variable {buf rest v : List Char} {j : Nat}

theorem index_ofs (h : j ≤ buf.length) : Ptr.index (.ofs j) buf = .ok j := by
  simp only [Ptr.index]
  rw [if_pos (by omega)]
  simp

theorem strstr_ofs {needle : String} (h : j ≤ buf.length) :
    strstr buf (.ofs j) needle = .ok (match findSub needle.toList (buf.drop j) with
      | none => .null
      | some k => .ofs (j + k)) := by
  simp only [strstr, index_ofs h]
  rfl

theorem atoi_ofs (h : j ≤ buf.length) : atoi buf (.ofs j) = .ok (atoiText (buf.drop j)) := by
  simp only [atoi, index_ofs h]
  rfl

theorem cut_ofs (h : j ≤ buf.length) : cut buf (.ofs j) = .ok (buf.take j) := by
  simp only [cut, index_ofs h]
  rfl

theorem cstring_ofs (h : j ≤ buf.length) : cstring buf (.ofs j) = .ok (buf.drop j) := by
  simp only [cstring, index_ofs h]
  rfl

/-- `std::string(p, p + |v|)` over a span that holds `v`. -/
theorem range_span (hj : j ≤ buf.length) (h : buf.drop j = v ++ rest) :
    range buf (.ofs j) (.ofs (j + v.length)) = .ok v := by
  have hlen := congrArg List.length h
  simp only [List.length_drop, List.length_append] at hlen
  have hjv : j + v.length ≤ buf.length := by omega
  have := index_ofs hjv
  push_cast at this
  simp only [range, index_ofs hj, this, Nat.le_add_right, if_true, Nat.add_sub_cancel_left, h,
    List.take_left]

/-- `strstr(p, "\"")` at a value that holds no quote: the quote closing it. -/
theorem strstr_quote (h : buf.drop j = v ++ '"' :: rest) (hq : '"' ∉ v) :
    strstr buf (.ofs j) "\"" = .ok (.ofs (j + v.length)) := by
  have hj : j ≤ buf.length := by
    have := congrArg List.length h
    simp only [List.length_drop, List.length_append, List.length_cons] at this
    omega
  have hs : Skips "\"".toList v = true := skips_of_forall_ne fun c hc e => hq (e ▸ hc)
  rw [strstr_ofs hj, h, findSub_append_of_skips hs]
  simp [findSub]

end Pointers

end Dibbler
