import SourceTrees.Text.Lower

/-!
# What comes down to a letter of the basic alphabet

Lower case is taken of all characters there are, and one capital may become two characters.  Still a text that
comes down to plain letters has no others than those, in one case or the other.

## Protocol

* A character is **plain** if nothing comes down to it but itself and its capital in the basic alphabet.  Two
  small letters are not plain: the Kelvin sign comes down to a k, and a capital I with dot to an i with a
  combining dot.

## Results

* `Text.isPlain` — plain characters; `Text.lowerWithin_cases` — what one character comes down to.
* `Text.lowerChars_eq_iff` — which texts come down to a plain one.
* **`Text.suffix_lowerChars_iff`** — which texts come down to one that ends in a plain one.
-/

set_option autoImplicit false

namespace SourceTrees.Text

/-- The dot, and the small letters of the basic alphabet that no letter beyond it comes down to. -/
def isPlain (c : Char) : Bool := c == '.' || ('a' ≤ c && c ≤ 'z' && c != 'i' && c != 'k')

variable {c x : Char} {before after cs xs : List Char}

/-! ## One character -/

/-- Plain characters are in the basic alphabet, and none of them is a k. -/
theorem toNat_of_isPlain (h : isPlain c = true) : 0 < c.toNat ∧ c.toNat < 0x80 ∧ c.toNat ≠ 0x6B := by
  have hk : c.toNat = 0x6B → c = 'k' := fun he => Char.toNat_inj.1 he
  simp only [isPlain, Bool.or_eq_true, Bool.and_eq_true, beq_iff_eq, bne_iff_ne, decide_eq_true_eq] at h
  rcases h with rfl | ⟨⟨⟨hlow, hhigh⟩, -⟩, hne⟩
  · decide
  · have h1 : 'a'.toNat ≤ c.toNat := hlow
    have h2 : c.toNat ≤ 'z'.toNat := hhigh
    refine ⟨Nat.lt_of_lt_of_le (by decide) h1, Nat.lt_of_le_of_lt h2 (by decide), fun he => hne (hk he)⟩

/-- In the basic alphabet the small letters are the usual ones. -/
theorem lowerChar_of_lt (h : c.toNat < 0x80) : lowerChar c = c.toLower := by
  have hall : ∀ n : Fin 0x80, lowerChar (Char.ofNat n) = (Char.ofNat n).toLower := by decide +kernel
  simpa using hall ⟨c.toNat, h⟩

/-- Beyond it there are none of the usual ones. -/
theorem toLower_of_le (h : 0x80 ≤ c.toNat) : c.toLower = c := by
  have hcapital : ¬ (c.val ≥ 'A'.val ∧ c.val ≤ 'Z'.val) := fun hc => by
    have hle : c.toNat ≤ 'Z'.toNat := hc.2
    exact absurd (Nat.le_trans h hle) (by decide)
  exact dif_neg hcapital

/-- Beyond the basic alphabet nothing has a small letter in it, but for the Kelvin sign. -/
theorem lowerRuns_stay : ∀ run ∈ lowerRuns, 0x80 ≤ run.first + run.distance ∨
    run.first = 0x212A ∧ run.last = 0x212A ∧ run.distance = -8383 := by
  decide +kernel

/-- A code point that is none stands for the null character. -/
theorem toNat_ofNat (n : Nat) : (Char.ofNat n).toNat = n ∨ (Char.ofNat n).toNat = 0 := by
  by_cases hn : n.isValidChar
  · exact .inl (congrArg Char.toNat (dif_pos hn))
  · exact .inr (congrArg Char.toNat (dif_neg hn))

/-- A character beyond the basic alphabet does not come down to a plain one. -/
theorem not_isPlain_lowerChar (h : 0x80 ≤ c.toNat) : isPlain (lowerChar c) = false := by
  have hout : ∀ {n : Nat}, 0x80 ≤ n ∨ n = 0x6B → isPlain (Char.ofNat n) = false := by
    intro n hn
    refine Bool.eq_false_iff.2 fun hplain => ?_
    have hbound := toNat_of_isPlain hplain
    rcases toNat_ofNat n with he | he <;> omega
  have hcapital : ¬ ('A' ≤ c ∧ c ≤ 'Z') := fun hc => by
    have hle : c.toNat ≤ 'Z'.toNat := hc.2
    exact absurd (Nat.le_trans h hle) (by decide)
  rw [lowerChar, if_neg hcapital, if_neg (Nat.not_lt.2 h)]
  cases hrun : lowerRuns.find? (·.covers c.toNat) with
  | none =>
    have hself := hout (.inl h)
    rwa [Char.ofNat_toNat] at hself
  | some run =>
    have hcovers := Array.find?_some hrun
    simp only [CaseRun.covers, Bool.and_eq_true, decide_eq_true_eq] at hcovers
    obtain ⟨⟨hfirst, hlast⟩, -⟩ := hcovers
    refine hout ?_
    rcases lowerRuns_stay run (Array.mem_of_find?_eq_some hrun) with hfar | ⟨h1, h2, h3⟩
    · exact .inl (by omega)
    · exact .inr (by omega)

/-- **A character comes down to its small letter in the basic alphabet, if that is plain, and to nothing plain
    otherwise.** -/
theorem lowerWithin_cases (before : List Char) (c : Char) (after : List Char) :
    isPlain c.toLower = true ∧ lowerWithin before c after = [c.toLower] ∨
      isPlain c.toLower = false ∧ lowerWithin before c after ≠ [] ∧
        ∀ x ∈ lowerWithin before c after, isPlain x = false := by
  unfold lowerWithin
  split
  · rename_i hc
    subst hc
    refine .inr ⟨by decide, by simp, fun x hx => ?_⟩
    rw [List.mem_singleton.1 hx]
    split <;> decide
  split
  · rename_i hc
    subst hc
    refine .inr ⟨by decide, by decide, fun x hx => ?_⟩
    simp only [List.mem_cons, List.not_mem_nil, or_false] at hx
    rcases hx with rfl | rfl <;> decide
  by_cases hlt : c.toNat < 0x80
  · rw [lowerChar_of_lt hlt]
    cases hplain : isPlain c.toLower with
    | true => exact .inl ⟨rfl, rfl⟩
    | false => exact .inr ⟨rfl, by simp, by simp [hplain]⟩
  · have hfar : isPlain c = false :=
      Bool.eq_false_iff.2 fun hplain => hlt (toNat_of_isPlain hplain).2.1
    rw [toLower_of_le (Nat.not_lt.1 hlt)]
    exact .inr ⟨hfar, by simp, by simp [not_isPlain_lowerChar (Nat.not_lt.1 hlt)]⟩

/-! ## Texts -/

/-- Lower case that is plain is that of the basic alphabet. -/
theorem lowerAfter_eq_iff (hxs : ∀ x ∈ xs, isPlain x = true) :
    xs = lowerAfter before cs ↔ xs = cs.map Char.toLower := by
  induction cs generalizing before xs with
  | nil => rfl
  | cons c cs ih =>
    simp only [lowerAfter, List.map_cons]
    rcases lowerWithin_cases before c cs with ⟨-, he⟩ | ⟨hc, hne, hnone⟩
    · rw [he, List.singleton_append]
      cases xs with
      | nil => simp
      | cons x xs =>
        simp only [List.cons.injEq]
        exact and_congr_right' (ih fun y hy => hxs y (List.mem_cons_of_mem _ hy))
    · constructor
      · rintro rfl
        obtain ⟨x, rest, hcons⟩ := List.exists_cons_of_ne_nil hne
        have hx := hnone x (by simp [hcons])
        rw [hxs x (by simp [hcons])] at hx
        cases hx
      · rintro rfl
        rw [hxs c.toLower List.mem_cons_self] at hc
        cases hc

/-- A plain ending of the lower case stands there in the basic alphabet. -/
theorem suffix_lowerAfter_iff (hxs : ∀ x ∈ xs, isPlain x = true) :
    xs <:+ lowerAfter before cs ↔ xs <:+ cs.map Char.toLower := by
  induction cs generalizing before with
  | nil => rfl
  | cons c cs ih =>
    simp only [lowerAfter, List.map_cons]
    rcases lowerWithin_cases before c cs with ⟨-, he⟩ | ⟨hc, -, hnone⟩
    · rw [he, List.singleton_append, List.suffix_cons_iff, List.suffix_cons_iff, ih]
      refine or_congr_left ?_
      cases xs with
      | nil => simp
      | cons x xs =>
        simp only [List.cons.injEq]
        exact and_congr_right' (lowerAfter_eq_iff fun y hy => hxs y (List.mem_cons_of_mem _ hy))
    · -- What is plain ends before it comes to this character.
      rw [List.suffix_cons_iff, ← @ih (c :: before)]
      constructor
      · intro hsuffix
        refine .inr ?_
        rcases List.suffix_or_suffix_of_suffix hsuffix (List.suffix_append ..) with h | ⟨ys, rfl⟩
        · exact h
        · obtain ⟨zs, hzs⟩ := hsuffix
          rw [← List.append_assoc] at hzs
          have hpiece := List.append_cancel_right hzs
          cases ys with
          | nil => exact List.suffix_refl _
          | cons y ys =>
            have hy := hnone y (by simp [← hpiece])
            rw [hxs y (by simp)] at hy
            cases hy
      · rintro (rfl | hsuffix)
        · rw [hxs c.toLower List.mem_cons_self] at hc
          cases hc
        · exact hsuffix.trans (List.suffix_append ..)

theorem lowerChars_eq_iff (hxs : ∀ x ∈ xs, isPlain x = true) :
    lowerChars cs = xs ↔ cs.map Char.toLower = xs := by
  rw [eq_comm, lowerChars, lowerAfter_eq_iff hxs, eq_comm]

theorem suffix_lowerChars_iff (hxs : ∀ x ∈ xs, isPlain x = true) :
    xs <:+ lowerChars cs ↔ xs <:+ cs.map Char.toLower :=
  suffix_lowerAfter_iff hxs

end SourceTrees.Text
