import Pkm.Kacs.Structure
/-!
# Values in conditions

A composite literal declares its length. Its members are read one after the other until one
reaches the declared end, and nothing keeps the last of them from going past it. Where members
should lie can be told from the bytes alone, for each of them starts with its length or has a fixed
one: a literal and all those in it take what they declare exactly if the declared extents tile
each other (`Tiles`). Values are compared as sets, where a comparison of two members may be
undefined.
-/

namespace Pkm.Kacs.Condition

open Bytes Option

/-! ## The extent of a composite -/

theorem readU32_eq {bytes : Bytes} {offset offset' : ℕ} {value : BitVec 32}
    (h : readU32 bytes offset = some (value, offset')) :
    value = u32At bytes offset ∧ offset' = offset + 4 := by
  obtain ⟨⟨s, o⟩, hs, h⟩ := bind_eq_some_iff.mp h
  obtain ⟨-, hs⟩ := ite_none_right_eq_some.mp hs
  cases hs
  cases h
  simp [u32At, slice, byteAt_take, byteAt_drop]

section Extent

variable {bytes : Bytes} {parse : ℕ → Option (Value × ℕ)} {stop a b c : ℕ} {value : Value}

/-- The bytes that a member declares at its start, its token included. -/
def memberSize (bytes : Bytes) (a : ℕ) : ℕ :=
  if 0x01#8 ≤ byteAt bytes a ∧ byteAt bytes a ≤ 0x04#8 then 11
  else 5 + (u32At bytes (a + 1)).toNat

/-- Declared extents lie end to end, and so do those of the members of every composite. -/
inductive Tiles (bytes : Bytes) : ℕ → ℕ → Prop where
  | done {a : ℕ} : Tiles bytes a a
  | member {a stop : ℕ} (hinner : byteAt bytes a = 0x50#8 →
      Tiles bytes (a + 5) (a + memberSize bytes a))
      (hrest : Tiles bytes (a + memberSize bytes a) stop) : Tiles bytes a stop

theorem Tiles.le (h : Tiles bytes a b) : a ≤ b := by
  induction h with
  | done => exact Nat.le_refl _
  | member _ _ _ ih => exact (Nat.le_add_right _ _).trans ih

theorem readSlice_end {raw : Bytes} {len : ℕ} (h : readSlice bytes a len = some (raw, b)) :
    b = a + len := by
  obtain ⟨-, h⟩ := ite_none_right_eq_some.mp h
  cases h
  rfl

/-- A member that is no composite takes what it declares. -/
theorem parseLiteral_end (h : parseLiteral bytes parse (byteAt bytes a) (a + 1) = some (value, b))
    (hplain : byteAt bytes a ≠ 0x50#8) : b = a + memberSize bytes a := by
  have hlength : ∀ {len o raw}, readU32 bytes (a + 1) = some (len, o) →
      readSlice bytes o len.toNat = some (raw, b) → b = a + (5 + (u32At bytes (a + 1)).toNat) := by
    intro len o raw hlen hraw
    obtain ⟨rfl, rfl⟩ := readU32_eq hlen
    rw [readSlice_end hraw]
    omega
  unfold parseLiteral at h
  unfold memberSize
  split_ifs at h with hint hstring hoctet hsid
  · rw [if_pos hint]
    obtain ⟨⟨raw, o⟩, hraw, h⟩ := bind_eq_some_iff.mp h
    obtain ⟨⟨sign, o₁⟩, hsign, h⟩ := bind_eq_some_iff.mp h
    obtain ⟨⟨base, o₂⟩, hbase, h⟩ := bind_eq_some_iff.mp h
    obtain ⟨-, h⟩ := ite_none_left_eq_some.mp h
    obtain ⟨_, -, h⟩ := bind_eq_some_iff.mp h
    obtain ⟨-, h⟩ := ite_none_left_eq_some.mp h
    cases h
    have := readSlice_end hraw
    grind [readU8]
  · rw [if_neg hint]
    obtain ⟨⟨len, o⟩, hlen, h⟩ := bind_eq_some_iff.mp h
    obtain ⟨-, h⟩ := ite_none_left_eq_some.mp h
    obtain ⟨⟨raw, _⟩, hraw, h⟩ := bind_eq_some_iff.mp h
    obtain ⟨_, -, h⟩ := bind_eq_some_iff.mp h
    cases h
    exact hlength hlen hraw
  · rw [if_neg hint]
    obtain ⟨⟨len, o⟩, hlen, h⟩ := bind_eq_some_iff.mp h
    obtain ⟨⟨raw, _⟩, hraw, h⟩ := bind_eq_some_iff.mp h
    cases h
    exact hlength hlen hraw
  · rw [if_neg hint]
    obtain ⟨⟨len, o⟩, hlen, h⟩ := bind_eq_some_iff.mp h
    obtain ⟨⟨raw, _⟩, hraw, h⟩ := bind_eq_some_iff.mp h
    obtain ⟨_, -, h⟩ := bind_eq_some_iff.mp h
    cases h
    exact hlength hlen hraw

/-- A member of a composite literal, from its token to its end. -/
def Member (bytes : Bytes) (parse : ℕ → Option (Value × ℕ)) (a b : ℕ) : Prop :=
  ∃ value, parseLiteral bytes parse (byteAt bytes a) (a + 1) = some (value, b)

/-- One offset is reached from another by whole members. -/
def Spans (bytes : Bytes) (parse : ℕ → Option (Value × ℕ)) : ℕ → ℕ → Prop :=
  Relation.ReflTransGen (Member bytes parse)

theorem Member.unique (hb : Member bytes parse a b) (hc : Member bytes parse a c) : b = c := by
  obtain ⟨_, hb⟩ := hb
  obtain ⟨_, hc⟩ := hc
  cases hb.symm.trans hc
  rfl

variable (hparse : ∀ o, Past o (parse o))

include hparse

theorem Spans.le (h : Spans bytes parse a b) : a ≤ b := by
  induction h with
  | refl => exact Nat.le_refl a
  | tail _ hstep ih =>
    obtain ⟨_, hstep⟩ := hstep
    have := Past.parseLiteral hparse _ _ hstep
    omega

/-- **The loop over the members**, with what is to hold of the composites among them. -/
theorem parseMembers_tiles {fuel : ℕ} {values : List Value} {good : ℕ → Prop}
    (hgood : ∀ {o value o'}, parse o = some (value, o') →
      (good o → o' = o + 4 + (u32At bytes o).toNat) ∧
      (good o ↔ Tiles bytes (o + 4) (o + 4 + (u32At bytes o).toNat)))
    (h : parseMembers bytes parse stop fuel a = some (values, b)) :
    (b = stop ∧ ∀ c, Spans bytes parse a c → c < stop → byteAt bytes c = 0x50#8 →
      good (c + 1)) ↔ Tiles bytes a stop := by
  induction fuel generalizing a values with
  | zero => cases h
  | succ fuel ih =>
    unfold parseMembers at h
    split at h
    · rename_i hend
      cases h
      constructor
      · rintro ⟨rfl, -⟩
        exact .done
      · intro htiles
        refine ⟨Nat.le_antisymm htiles.le hend, fun c hc hlt => ?_⟩
        have := hc.le hparse
        omega
    · rename_i hmore
      obtain ⟨⟨tokenType, o⟩, hread, h⟩ := bind_eq_some_iff.mp h
      obtain ⟨rfl, rfl⟩ : byteAt bytes a = tokenType ∧ a + 1 = o := by grind [readU8]
      obtain ⟨-, h⟩ := ite_none_left_eq_some.mp h
      obtain ⟨⟨value, c⟩, hliteral, h⟩ := bind_eq_some_iff.mp h
      obtain ⟨⟨rest, _⟩, hrest, h⟩ := bind_eq_some_iff.mp h
      cases h
      have hmember : Member bytes parse a c := ⟨value, hliteral⟩
      have ih := ih hrest
      have hcomposite : byteAt bytes a = 0x50#8 →
          (good (a + 1) → c = a + memberSize bytes a) ∧
          (good (a + 1) ↔ Tiles bytes (a + 5) (a + memberSize bytes a)) := by
        intro htoken
        have hsize : a + memberSize bytes a = a + 1 + 4 + (u32At bytes (a + 1)).toNat := by
          rw [memberSize, htoken, if_neg (by decide)]
          omega
        rw [parseLiteral, htoken] at hliteral
        rw [hsize]
        exact hgood hliteral
      -- where the member ends, if it is no composite or one that takes what it declares
      have hend : (byteAt bytes a = 0x50#8 → good (a + 1)) → c = a + memberSize bytes a := by
        intro hnested
        by_cases htoken : byteAt bytes a = 0x50#8
        · exact (hcomposite htoken).1 (hnested htoken)
        · exact parseLiteral_end hliteral htoken
      constructor
      · rintro ⟨rfl, hall⟩
        have hself := hall a .refl (Nat.not_le.mp hmore)
        refine .member (fun htoken => (hcomposite htoken).2.mp (hself htoken)) ?_
        rw [← hend hself]
        exact ih.mp ⟨rfl, fun d hd => hall d (hd.head hmember)⟩
      · intro htiles
        cases htiles with
        | done => exact absurd (Nat.le_refl _) hmore
        | member hnested htiles =>
          have hself := fun htoken => (hcomposite htoken).2.mpr (hnested htoken)
          rw [← hend hself] at htiles
          obtain ⟨hstop, hall⟩ := ih.mpr htiles
          refine ⟨hstop, fun d hd hlt => ?_⟩
          -- this member, or one behind it
          rcases hd.cases_head with rfl | ⟨e, he, hd⟩
          · exact hself
          · exact hall d (he.unique hmember ▸ hd) hlt

end Extent

/-- A literal takes its length and the bytes it declares, and so does every composite literal that
is read within it. -/
def Exact (bytes : Bytes) : ℕ → ℕ → Prop
  | 0, _ => True
  | depth + 1, offset =>
    (∀ value offset', parseCompositeLiteral bytes (depth + 1) offset = some (value, offset') →
      offset' = offset + 4 + (u32At bytes offset).toNat) ∧
    ∀ a, Spans bytes (parseCompositeLiteral bytes depth) (offset + 4) a →
      a < offset + 4 + (u32At bytes offset).toNat → byteAt bytes a = 0x50#8 →
        Exact bytes depth (a + 1)

/-- **The extent of a composite literal.** It takes what it declares, and so do those within it,
exactly if the declared extents tile each other. -/
theorem composite_extent_iff {bytes : Bytes} {depth offset offset' : ℕ} {value : Value}
    (h : parseCompositeLiteral bytes depth offset = some (value, offset')) :
    Exact bytes depth offset ↔
      Tiles bytes (offset + 4) (offset + 4 + (u32At bytes offset).toNat) := by
  induction depth generalizing offset offset' value with
  | zero => cases h
  | succ depth ih =>
    have hself : (∀ v o, parseCompositeLiteral bytes (depth + 1) offset = some (v, o) →
        o = offset + 4 + (u32At bytes offset).toNat) ↔
          offset' = offset + 4 + (u32At bytes offset).toNat := by
      rw [h]
      simp
    rw [Exact, hself]
    obtain ⟨⟨len, o⟩, hlen, h⟩ := bind_eq_some_iff.mp h
    obtain ⟨-, h⟩ := ite_none_left_eq_some.mp h
    obtain ⟨⟨values, _⟩, hmembers, h⟩ := bind_eq_some_iff.mp h
    cases h
    obtain ⟨rfl, rfl⟩ := readU32_eq hlen
    refine parseMembers_tiles (fun _ => Past.parseCompositeLiteral _)
      (fun hparse => ⟨?_, ih hparse⟩) hmembers
    intro hexact
    cases depth with
    | zero => cases hparse
    | succ depth => exact hexact.1 _ _ hparse

/-- An empty octet string in a composite in a composite: ten bytes are declared, five of them for
the inner one. -/
theorem composite_extent_fits :
    Exact [10, 0, 0, 0, 0x50, 5, 0, 0, 0, 0x18, 0, 0, 0, 0] maxCompositeLiteralDepth 0 :=
  (@composite_extent_iff _ maxCompositeLiteralDepth 0 14 (.composite [.composite [.octet []]])
    rfl).mpr (.member (fun _ => .member (fun h => absurd h (by decide)) .done) .done)

/-- With one byte declared it is taken as well, past the declared end. -/
theorem composite_overruns :
    parseCompositeLiteral [1, 0, 0, 0, 0x18, 0, 0, 0, 0] maxCompositeLiteralDepth 0 =
        some (.composite [.octet []], 9) ∧
      (u32At [1, 0, 0, 0, 0x18, 0, 0, 0, 0] 0).toNat = 1 := ⟨rfl, rfl⟩

/-! ## Comparison as sets -/

section Sets

variable {equal : Value → Value → Option Bool} {lhs rhs : List Value} {v w : Value} {u : Bool}

theorem findEqual_fst :
    (findEqual equal v lhs u).1 = true ↔ ∃ w ∈ lhs, equal w v = some true := by
  induction lhs generalizing u with
  | nil => simp [findEqual]
  | cons w rest ih =>
    unfold findEqual
    rcases hw : equal w v with _ | _ | _ <;> simp [ih, hw]

theorem of_containsAll (h : containsAll equal lhs rhs u = .true) :
    u = false ∧ ∀ v ∈ rhs, ∃ w ∈ lhs, equal w v = some true := by
  induction rhs generalizing u with
  | nil => cases u <;> simp_all [containsAll]
  | cons v rest ih =>
    unfold containsAll at h
    split at h
    · rename_i hfound
      obtain ⟨hu, hrest⟩ := ih h
      exact ⟨hu, List.forall_mem_cons.mpr ⟨findEqual_fst.mp (congrArg Prod.fst hfound), hrest⟩⟩
    · cases (ih h).1
    · cases h

theorem containsAny_of_mem (hv : v ∈ rhs) (hw : w ∈ lhs) (h : equal w v = some true) :
    containsAny equal lhs rhs u = .true := by
  induction rhs generalizing u with
  | nil => cases hv
  | cons x rest ih =>
    unfold containsAny
    split
    · rfl
    · rename_i hno
      rcases List.mem_cons.mp hv with rfl | hv
      · have := (findEqual_fst (u := u)).mpr ⟨w, hw, h⟩
        simp [hno] at this
      · exact ih hv

end Sets

/-- **Equality is symmetric**, and sets that contain each other have a value in common. -/
theorem compareEq_symm_and_anyOf (a b : OperandValue) :
    compareEq a b = compareEq b a ∧
      (compareContains a b = .true → compareContains b a = .true → b.value.asSet ≠ [] →
        compareAnyOf a b = .true) := by
  have hcase : caseSensitive a b = caseSensitive b a := by
    simp [caseSensitive, BitVec.or_comm]
  constructor
  · have hpair : ∀ x y, combinePair x y = combinePair y x := by
      intro x y
      cases x <;> cases y <;> rfl
    simp only [compareEq, compareSetRelation, hcase, ne_comm, hpair]
  · intro hab hba hne
    obtain ⟨v, hv⟩ := List.exists_mem_of_ne_nil _ hne
    obtain ⟨w, hw, -⟩ := (of_containsAll hab).2 v hv
    -- what `b` holds for `w` is the common value
    obtain ⟨x, hx, h⟩ := (of_containsAll hba).2 w hw
    exact containsAny_of_mem hw hx (hcase ▸ h)

/-- A set as an operand. -/
def Sample.set (values : List Value) : OperandValue := ⟨.composite values, .literal, 0#32⟩

/-- Two sets of the same two strings, up to case, order and repetition. -/
theorem sets_have_common_value :
    let a := Sample.set [.string "Audit".toList, .string "hr".toList]
    let b := Sample.set [.string "HR".toList, .string "audit".toList, .string "hr".toList]
    compareContains a b = .true ∧ compareContains b a = .true ∧ compareAnyOf a b = .true := by
  intro a b
  have hab : compareContains a b = .true := by decide +kernel
  have hba : compareContains b a = .true := by decide +kernel
  exact ⟨hab, hba, (compareEq_symm_and_anyOf a b).2 hab hba (by simp [b, Sample.set, Value.asSet])⟩

end Pkm.Kacs.Condition
