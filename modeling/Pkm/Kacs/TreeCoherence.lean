import Pkm.Kacs.Check
/-!
# Grants over an object tree

A right granted at a node is granted below it. The walks keep this by coherence:
whatever the order of entries, a denial below a node has decided the node before
a later grant reaches it. The fallback grants everywhere or nowhere, the merges
and the rules of policies combine grants node by node, and a rule that cannot be
evaluated grants the same everywhere. So the masks of a check grow from the root
to the leaves, and the scalar mask is the root's.
-/

namespace Pkm.Kacs

open Bits

/-- What holds at a node holds at its children. -/
def Descends (F : Forest) (g : ℕ → Bool) : Prop :=
  ∀ c p, F.parent c = some p → g p = true → g c = true

variable {F : Forest} {g h : ℕ → Bool}

theorem Descends.and (hg : Descends F g) (hh : Descends F h) :
    Descends F fun k => g k && h k := by
  intro c p hp hk
  rw [Bool.and_eq_true] at hk ⊢
  exact ⟨hg c p hp hk.1, hh c p hp hk.2⟩

theorem Descends.or_const (hg : Descends F g) (b : Bool) : Descends F fun k => g k || b := by
  intro c p hp hk
  rw [Bool.or_eq_true] at hk ⊢
  exact hk.imp_left (hg c p hp)

theorem Descends.all {α : Type} {l : List α} {g : α → ℕ → Bool}
    (hg : ∀ x ∈ l, Descends F (g x)) : Descends F fun k => l.all fun x => g x k := by
  intro c p hp hk
  rw [List.all_eq_true] at hk ⊢
  exact fun x hx => hg x hx c p hp (hk x hx)

theorem Descends.mergeBit (hg : Descends F g) (hh : Descends F h) (writeRestricted write : Bool)
    (privilege : Bool) :
    Descends F fun k => mergeBit writeRestricted (g k) (h k) write privilege := by
  have hboth := hg.and hh
  cases writeRestricted with
  | false => exact hboth.or_const privilege
  | true =>
    refine Descends.or_const ?_ privilege
    cases write with
    | true => simpa using hboth
    | false => simpa using hg

/-- What holds at the root of a tree holds at every node. -/
theorem Descends.of_root {tree : Option ObjectTypeList} (hg : Descends (forestOf tree) g)
    (h : g 0 = true) {k : ℕ} (hk : k < (forestOf tree).size) : g k = true :=
  Forest.forall_of_root hg (forestOf_single_root tree) h hk

section Passes

variable [CharCase]

/-- **A walk grants downwards**, whatever its entries and their order. -/
theorem descends_walkCells (d : DaclStateInput) (sidMatches : SidMatches) (i : Fin 32)
    (hstart : (startState d).granted ⊆ (startState d).decided) :
    Descends (forestOf d.objectTree) fun k => (walkCells d sidMatches i k).granted :=
  have hcoh := Forest.Coherent.uniform fun hg => bit_of_subset hstart hg
  fun _ _ => (hcoh.walk (daclEffects d sidMatches i)).granted_down

namespace Resolved

variable {input : EvaluateSecurityDescriptorInput} (r : Resolved input)

theorem descends_walkAt (i : Fin 32) : Descends (forestOf input.objectTree) (r.walkAt i) :=
  descends_walkCells (r.pass.normalInput r.initial) _ i (startState_subset r.initial_subset)

/-- The evaluation of a descriptor grants downwards. -/
theorem descends_grantAt (i : Fin 32) :
    Descends (forestOf input.objectTree) (r.grantAt i) := by
  have hrestricted : Descends (forestOf input.objectTree) (r.restrictedAt i) :=
    descends_walkCells r.pass.restrictedInput _ i (startState_subset (subset_refl _))
  have hnormal : Descends (forestOf input.objectTree) (r.normalAt i) :=
    (r.descends_walkAt i).or_const _
  have hmerged : Descends (forestOf input.objectTree) (r.mergedAt i) := by
    unfold mergedAt
    split
    · exact hnormal.mergeBit hrestricted _ _ _
    · exact hnormal
  unfold grantAt
  split
  · exact hmerged.and (descends_walkCells r.pass.confinementInput _ i
      (startState_subset (subset_refl _)))
  · exact hmerged

end Resolved

/-- A rule grants downwards, evaluated or not. -/
theorem descends_ruleGrants (input : CaapEvaluationInput) (dacl : Bytes) (i : Fin 32) :
    Descends (forestOf input.objectTree) ((ruleGrants input dacl).grants.holdsAt i) := by
  intro c p hp
  have hc := (forestOf input.objectTree).child_lt hp
  have hlt := Nat.lt_trans ((forestOf input.objectTree).parent_lt hp) hc
  obtain ⟨sd, st, -, hok, heq⟩ | ⟨-, heq⟩ := ruleGrants_cases input dacl
  · obtain ⟨r, hy⟩ := exists_resolved hok
    rw [heq, hy.presents.holdsAt_eq hlt, hy.presents.holdsAt_eq hc]
    exact r.descends_grantAt i c p hp
  · have hpres := presents_denyExceptPrivileges input.base.privilegeGranted input.objectTree
    rw [heq, hpres.holdsAt_eq hlt, hpres.holdsAt_eq hc]
    exact id

theorem Checked.descends_grantAt {input : AccessCheckCoreInput} {sd : SecurityDescriptor}
    {out : AccessCheckCoreState} (c : Checked input sd out) (i : Fin 32) :
    Descends (forestOf input.objectTree) (c.grantAt i) :=
  (c.resolved.descends_grantAt i).and
    (Descends.all fun dacl _ => descends_ruleGrants (input.caapInput sd c.base) dacl i)

/-- **Grants grow from the root to the leaves.** A successful check over an accepted tree reports
one mask per node; the scalar mask is the root's, and every mask is contained in those of the
node's children. -/
theorem accessCheckCore_tree_coherent {input : AccessCheckCoreInput} {out : AccessCheckCoreState}
    {tree : ObjectTypeList} (h : accessCheckCore input = .ok out)
    (htree : input.objectTree = some tree) :
    ∃ l, out.objectGrantedList = some l ∧ l.length = tree.len ∧ out.granted = l.getD 0 0#32 ∧
      ∀ child parent, tree.parentOf child = some parent →
        l.getD parent 0#32 ⊆ l.getD child 0#32 := by
  obtain ⟨sd, -, ⟨c⟩⟩ := nonempty_checked h
  have hpres := c.presents
  have hdown := c.descends_grantAt
  rw [htree] at hpres hdown
  obtain ⟨l, hl, hlen⟩ := hpres.exists_nodes
  refine ⟨l, hl, hlen, ext_bit fun i => ?_, fun child parent hp => subset_iff.mpr fun i hi => ?_⟩
  · have hroot : 0 < l.length := hlen ▸ tree.len_pos
    rw [hpres.nodes hl hroot i]
    exact hpres.scalar i
  · obtain ⟨hc, hlt, -⟩ := tree.parentOf_eq_some hp
    rw [hpres.nodes hl (by omega) i] at hi
    rw [hpres.nodes hl (by omega) i]
    exact hdown i child parent hp hi

end Passes

attribute [local instance] Sample.asciiCase

theorem accessCheckCore_tree_coherent_sample :
    ∃ out l, accessCheckCore Sample.check = .ok out ∧ out.objectGrantedList = some l ∧
      l.length = 3 ∧ out.granted = l.getD 0 0#32 ∧
      ∀ child parent, Sample.tree.parentOf child = some parent →
        l.getD parent 0#32 ⊆ l.getD child 0#32 := by
  obtain ⟨out, h⟩ := Outcome.exists_of_isOk (x := accessCheckCore Sample.check) (by decide)
  obtain ⟨l, hl⟩ := accessCheckCore_tree_coherent h rfl
  exact ⟨out, l, h, hl⟩

end Pkm.Kacs
