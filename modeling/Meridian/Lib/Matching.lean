import Mathlib.Data.List.Perm.Basic
import Mathlib.Data.List.Forall2

/-!
# One-to-one correspondences between lists

`OneToOne R xs ys`: the elements of `xs` and of `ys` can be paired off, each with exactly one of
the other list, every pair in `R`. Equal elements at different places count apart.
-/

namespace Meridian

variable {α β : Type*} {R : α → β → Prop} {xs xs' : List α} {ys ys' : List β}

/-- `ys` can be reordered to stand in `R` to `xs`, element by element. -/
def OneToOne (R : α → β → Prop) (xs : List α) (ys : List β) : Prop :=
  ∃ zs, zs.Perm ys ∧ List.Forall₂ R xs zs

namespace OneToOne

theorem of_forall₂ (h : List.Forall₂ R xs ys) : OneToOne R xs ys := ⟨ys, List.Perm.refl _, h⟩

theorem length_eq (h : OneToOne R xs ys) : xs.length = ys.length := by
  obtain ⟨zs, hp, hf⟩ := h
  rw [hf.length_eq, hp.length_eq]

theorem append (h : OneToOne R xs ys) (h' : OneToOne R xs' ys') :
    OneToOne R (xs ++ xs') (ys ++ ys') := by
  obtain ⟨zs, hp, hf⟩ := h
  obtain ⟨zs', hp', hf'⟩ := h'
  exact ⟨zs ++ zs', hp.append hp', List.rel_append hf hf'⟩

theorem perm_right (h : OneToOne R xs ys) (hp : ys.Perm ys') : OneToOne R xs ys' := by
  obtain ⟨zs, hz, hf⟩ := h
  exact ⟨zs, hz.trans hp, hf⟩

/-- The partners of a part of the left list. -/
theorem split_left (h : OneToOne R (xs ++ xs') ys) :
    ∃ zs zs', (zs ++ zs').Perm ys ∧ List.Forall₂ R xs zs ∧ List.Forall₂ R xs' zs' := by
  obtain ⟨zs, hp, hf⟩ := h
  refine ⟨zs.take xs.length, zs.drop xs.length, by rwa [List.take_append_drop], ?_, ?_⟩
  · simpa using List.forall₂_take xs.length hf
  · simpa using List.forall₂_drop xs.length hf

end OneToOne

theorem exists_left_of_mem {z : β} {zs : List β} (hf : List.Forall₂ R xs zs) (hz : z ∈ zs) :
    ∃ x ∈ xs, R x z := by
  induction hf with
  | nil => exact absurd hz List.not_mem_nil
  | cons hr _ ih =>
    rcases List.mem_cons.mp hz with rfl | hz
    · exact ⟨_, List.mem_cons_self, hr⟩
    · obtain ⟨x, hx, hxz⟩ := ih hz
      exact ⟨x, List.mem_cons_of_mem _ hx, hxz⟩

/-- **Cancellation.** When `xs'` is paired off with the elements of `ys` outside `c`, and no element
of `xs` is related to one outside `c`, then all pair off iff `xs` does with the elements in `c`. -/
theorem oneToOne_append_iff (c : β → Bool) (hx : ∀ x ∈ xs, ∀ y ∈ ys, R x y → c y = true)
    (h' : OneToOne R xs' (ys.filter fun y => !c y)) :
    OneToOne R (xs ++ xs') ys ↔ OneToOne R xs (ys.filter c) := by
  constructor
  · intro h
    obtain ⟨zs, zs', hp, hf, hf'⟩ := h.split_left
    have hzs : zs.filter (fun y => !c y) = [] := by
      rw [List.filter_eq_nil_iff]
      intro z hz
      obtain ⟨x, hxm, hxz⟩ := exists_left_of_mem hf hz
      have hzy : z ∈ ys := hp.mem_iff.mp (List.mem_append_left _ hz)
      simp [hx x hxm z hzy hxz]
    have hlen : zs'.length = (zs'.filter fun y => !c y).length := by
      have hpf := (hp.filter fun y => !c y).length_eq
      rw [List.filter_append, hzs, List.nil_append] at hpf
      rw [hpf, ← h'.length_eq, hf'.length_eq]
    have hzs' : zs'.filter c = [] := by
      rw [List.filter_eq_nil_iff]
      intro z hz hcz
      have hall := List.length_filter_eq_length_iff.mp hlen.symm z hz
      simp [hcz] at hall
    have hc : zs.filter c = zs := by
      rw [List.filter_eq_self]
      intro z hz
      simpa using List.filter_eq_nil_iff.mp hzs z hz
    refine ⟨zs, ?_, hf⟩
    have hpc := hp.filter c
    rwa [List.filter_append, hc, hzs', List.append_nil] at hpc
  · intro h
    exact (h.append h').perm_right (List.filter_append_perm c ys)
end Meridian
