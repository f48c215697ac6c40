import Pkm.Kacs.Check
/-!
# Comparing strings without regard to case

Strings are compared by the bytes of their UTF-16LE encoding, with each byte in the range of
the ASCII capitals taken as the small letter. A byte is not a character: the bytes of a code
unit beyond ASCII fall in that range too. So what compares equal are strings whose characters
are confusable one by one (`compareStrings_eq_iff`), and a string is safe from being taken for
a different one exactly if confusable characters have the same lower case. Those of ASCII do.
-/

namespace Pkm.Kacs

open Bytes Condition List

/-! ## Codes in which no word begins another -/

section Code

variable {α β : Type*} {code : α → List β}

/-- Texts in such a code are equal word by word. -/
theorem flatMap_eq_flatMap_iff (hne : ∀ a, code a ≠ [])
    (hcode : ∀ a b, code a <+: code b → code a = code b) {l l' : List α} :
    l.flatMap code = l'.flatMap code ↔ List.Forall₂ (fun a b => code a = code b) l l' := by
  induction l generalizing l' with
  | nil =>
    cases l' with
    | nil => simp
    | cons b l' => simp [hne b]
  | cons a l ih =>
    cases l' with
    | nil => simp [hne a]
    | cons b l' =>
      rw [flatMap_cons, flatMap_cons, List.forall₂_cons, ← ih]
      constructor
      · intro h
        have hword : code a = code b := by
          rcases prefix_or_prefix_of_prefix (prefix_append (code a) (l.flatMap code))
            (h ▸ prefix_append (code b) (l'.flatMap code)) with hab | hba
          · exact hcode a b hab
          · exact (hcode b a hba).symm
        rw [hword] at h
        exact ⟨hword, append_cancel_left h⟩
      · rintro ⟨hword, hrest⟩
        rw [hword, hrest]

end Code

/-! ## Confusable characters -/

theorem compareBytes_eq_iff {a b : Bytes} : compareBytes a b = .eq ↔ a = b := by
  induction a generalizing b with
  | nil => cases b <;> simp [compareBytes]
  | cons x a ih =>
    cases b with
    | nil => simp [compareBytes]
    | cons y b =>
      rw [compareBytes, Ordering.then_eq_eq, Nat.compare_eq_eq, ih, List.cons.injEq,
        BitVec.toNat_inj]

/-- The bytes of a character as they are compared. -/
def comparedBytes (c : Char) : Bytes := (utf16leBytes [c]).map toAsciiLowercase

theorem map_utf16leBytes (s : Str) :
    (utf16leBytes s).map toAsciiLowercase = s.flatMap comparedBytes := by
  induction s with
  | nil => rfl
  | cons c s ih =>
    rw [flatMap_cons, ← ih, comparedBytes]
    simp [utf16leBytes, encodeUtf16]

/-- The second byte of a high surrogate is where it was after lower-casing. -/
theorem toAsciiLowercase_surrogate (b : Byte) :
    0xd8 ≤ (toAsciiLowercase b).toNat ∧ (toAsciiLowercase b).toNat ≤ 0xdb ↔
      0xd8 ≤ b.toNat ∧ b.toNat ≤ 0xdb := by
  revert b
  decide

theorem comparedBytes_of_lt {c : Char} (h : c.toNat < 0x10000) :
    comparedBytes c = [toAsciiLowercase (.ofNat 8 c.toNat),
      toAsciiLowercase (.ofNat 8 (c.toNat / 256))] := by
  simp [comparedBytes, utf16leBytes, encodeUtf16, h, ofU16, Nat.mod_eq_of_lt]

/-- The second byte tells how many bytes a character has. -/
theorem comparedBytes_shape (c : Char) :
    (∃ x y, comparedBytes c = [x, y] ∧ ¬ (0xd8 ≤ y.toNat ∧ y.toNat ≤ 0xdb)) ∨
      ∃ x y z w, comparedBytes c = [x, y, z, w] ∧ 0xd8 ≤ y.toNat ∧ y.toNat ≤ 0xdb := by
  have hvalid := c.valid
  by_cases hlt : c.toNat < 0x10000
  · refine .inl ⟨_, _, comparedBytes_of_lt hlt, ?_⟩
    rw [toAsciiLowercase_surrogate]
    simp only [BitVec.toNat_ofNat]
    rcases hvalid with h | h
    · have hlow : c.toNat < 0xd800 := h
      omega
    · have hhigh : 0xdfff < c.toNat := h.1
      omega
  · have hbytes : comparedBytes c =
        (ofU16 (BitVec.ofNat 16 (0xD800 + (c.toNat - 0x10000) / 0x400)) ++
          ofU16 (BitVec.ofNat 16 (0xDC00 + (c.toNat - 0x10000) % 0x400))).map
            toAsciiLowercase := by
      simp [comparedBytes, utf16leBytes, encodeUtf16, hlt]
    refine .inr ⟨_, _, _, _, hbytes, ?_⟩
    rw [toAsciiLowercase_surrogate]
    have hmax : c.toNat < 0x110000 := by
      rcases hvalid with h | h
      · have hlow : c.toNat < 0xd800 := h
        omega
      · exact h.2
    simp only [BitVec.toNat_ofNat]
    omega

theorem comparedBytes_ne_nil (c : Char) : comparedBytes c ≠ [] := by
  obtain ⟨x, y, h, -⟩ | ⟨x, y, z, w, h, -⟩ := comparedBytes_shape c
  · simp [h]
  · simp [h]

theorem comparedBytes_eq_of_prefix (c d : Char) (h : comparedBytes c <+: comparedBytes d) :
    comparedBytes c = comparedBytes d := by
  obtain ⟨x, y, hc, hy⟩ | ⟨x, y, z, w, hc, hy⟩ := comparedBytes_shape c <;>
    obtain ⟨x', y', hd, hy'⟩ | ⟨x', y', z', w', hd, hy'⟩ := comparedBytes_shape d <;>
    rw [hc, hd] at h ⊢
  · exact h.eq_of_length rfl
  · -- a word of two bytes cannot begin one of four: their second bytes differ
    obtain ⟨-, h⟩ := cons_prefix_cons.mp h
    obtain ⟨rfl, -⟩ := cons_prefix_cons.mp h
    exact absurd hy' hy
  · exact absurd h.length_le (by simp)
  · exact h.eq_of_length rfl

/-- Characters that a comparison without regard to case takes for one another. -/
def Confusable (c d : Char) : Prop := comparedBytes c = comparedBytes d

/-- **ASCII is safe**: what is confusable with a character of ASCII differs from it in case only,
for the byte of a capital only becomes that of its small letter, and no byte becomes zero. -/
theorem toLower_eq_of_confusable {c d : Char} (hc : c.toNat < 0x80) (h : Confusable c d) :
    d.toLower = c.toLower := by
  have hsmall : ∀ b : Byte, b.toNat < 0x80 →
      (Char.ofNat b.toNat).toLower = .ofNat (toAsciiLowercase b).toNat := by decide
  have hascii : ∀ b : Byte, (toAsciiLowercase b).toNat < 0x80 ↔ b.toNat < 0x80 := by decide
  have hzero : ∀ b : Byte, toAsciiLowercase b = 0 → b.toNat = 0 := by decide
  unfold Confusable at h
  rw [comparedBytes_of_lt (by omega), Nat.div_eq_of_lt (by omega)] at h
  by_cases hd : d.toNat < 0x10000
  · rw [comparedBytes_of_lt hd] at h
    obtain ⟨hlow, hhigh⟩ : toAsciiLowercase (.ofNat 8 c.toNat) = _ ∧ _ = _ := by simpa using h
    have hbyte := (hascii _).mp (hlow ▸ (hascii (.ofNat 8 c.toNat)).mpr (by simp; omega))
    have hhigh := hzero _ hhigh.symm
    have hc' := hsmall (.ofNat 8 c.toNat) (by simp; omega)
    have hd' := hsmall _ hbyte
    rw [← hlow] at hd'
    simp only [BitVec.toNat_ofNat] at hc' hd' hhigh hbyte
    rw [Nat.mod_eq_of_lt (by omega), Char.ofNat_toNat] at hc' hd'
    exact hd'.trans hc'.symm
  · simp [comparedBytes, utf16leBytes, encodeUtf16, hd, ofU16] at h

variable {a b : Str}

/-- **What compares equal** are strings whose characters are confusable one by one. -/
theorem compareStrings_eq_iff : compareStrings a b false = .eq ↔ List.Forall₂ Confusable a b := by
  rw [compareStrings, compareOctets, if_neg Bool.false_ne_true, compareBytes_eq_iff,
    map_utf16leBytes, map_utf16leBytes]
  exact flatMap_eq_flatMap_iff comparedBytes_ne_nil comparedBytes_eq_of_prefix

/-! ## Soundness -/

variable [CharCase]

theorem foldString_eq_of_confusable (h : List.Forall₂ Confusable a b)
    (hsafe : ∀ c ∈ a, ∀ d, Confusable c d → CharCase.toLowercase c = CharCase.toLowercase d) :
    foldString a = foldString b := by
  induction h with
  | nil => rfl
  | @cons c d a b hcd _ ih =>
    obtain ⟨hc, ha⟩ := forall_mem_cons.mp hsafe
    rw [foldString, foldString, flatMap_cons, hc d hcd]
    exact congrArg _ (ih ha)

/-- **A string is compared soundly** exactly if each of its characters has the lower case of all
characters it is confusable with. -/
theorem compareStrings_sound_iff (a : Str) :
    (∀ b, compareStrings a b false = .eq → foldString a = foldString b) ↔
      ∀ c ∈ a, ∀ d, Confusable c d → CharCase.toLowercase c = CharCase.toLowercase d := by
  constructor
  · intro h c hc d hcd
    -- put the other character in the place of this one
    obtain ⟨l, r, rfl⟩ := append_of_mem hc
    have hrefl : ∀ s : Str, List.Forall₂ Confusable s s :=
      fun s => List.forall₂_same.mpr fun _ _ => rfl
    have heq : compareStrings (l ++ c :: r) (l ++ d :: r) false = .eq :=
      compareStrings_eq_iff.mpr (rel_append (hrefl l) (.cons hcd (hrefl r)))
    have hfold := h _ heq
    simp only [foldString, flatMap_append] at hfold
    exact append_cancel_right (append_cancel_left hfold)
  · intro hsafe b heq
    exact foldString_eq_of_confusable (compareStrings_eq_iff.mp heq) hsafe

omit [CharCase] in
/-- U+4100 and U+6100, two ideographs without case, compare equal. -/
theorem ideographs_compare_equal :
    compareStrings ['䄀'] ['愀'] false = .eq ∧
      @foldString Sample.asciiCase ['䄀'] = ['䄀'] ∧
      @foldString Sample.asciiCase ['愀'] = ['愀'] ∧
      ¬ ∀ b, compareStrings ['䄀'] b false = .eq →
        @foldString Sample.asciiCase ['䄀'] = @foldString Sample.asciiCase b := by
  have heq : compareStrings ['䄀'] ['愀'] false = .eq := by decide
  refine ⟨heq, by decide, by decide, fun h => ?_⟩
  exact absurd (h ['愀'] heq) (by decide)

end Pkm.Kacs
