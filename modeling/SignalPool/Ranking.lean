namespace SignalPool.Ranking

variable {α : Type} (slot : α → Int)

/-- Places an element before the first of a lower or equal slot. -/
def place (a : α) : List α → List α
  | [] => [a]
  | b :: bs => if slot b ≤ slot a then a :: b :: bs else b :: place a bs

/-- The elements by falling slot; those of one slot keep their order. -/
def newestFirst : List α → List α
  | [] => []
  | a :: as => place slot a (newestFirst as)

theorem perm_place (a : α) (as : List α) : (place slot a as).Perm (a :: as) := by
  induction as with
  | nil => exact List.Perm.refl _
  | cons b bs ih =>
    by_cases h : slot b ≤ slot a
    · simp [place, h]
    · rw [place, if_neg h]
      exact (ih.cons b).trans (List.Perm.swap a b bs)

theorem perm_newestFirst (as : List α) : (newestFirst slot as).Perm as := by
  induction as with
  | nil => exact List.Perm.refl _
  | cons a as ih => exact (perm_place slot a _).trans (ih.cons a)

theorem pairwise_place (a : α) (as : List α)
    (h : as.Pairwise (fun x y => slot y ≤ slot x)) :
    (place slot a as).Pairwise (fun x y => slot y ≤ slot x) := by
  induction as with
  | nil => simp [place]
  | cons b bs ih =>
    have hb := List.pairwise_cons.mp h
    by_cases hab : slot b ≤ slot a
    · rw [place, if_pos hab]
      refine List.pairwise_cons.mpr ⟨fun x hx => ?_, h⟩
      rcases List.mem_cons.mp hx with rfl | hx
      · exact hab
      · exact Int.le_trans (hb.1 x hx) hab
    · rw [place, if_neg hab]
      refine List.pairwise_cons.mpr ⟨fun x hx => ?_, ih hb.2⟩
      rcases List.mem_cons.mp ((perm_place slot a bs).mem_iff.mp hx) with rfl | hx
      · omega
      · exact hb.1 x hx

theorem pairwise_newestFirst (as : List α) :
    (newestFirst slot as).Pairwise (fun x y => slot y ≤ slot x) := by
  induction as with
  | nil => exact List.Pairwise.nil
  | cons a as ih => exact pairwise_place slot a _ ih

theorem map_place {β : Type} (slot : β → Int) (f : α → β) (a : α) (as : List α) :
    (place (fun x => slot (f x)) a as).map f = place slot (f a) (as.map f) := by
  induction as with
  | nil => rfl
  | cons b bs ih =>
    by_cases h : slot (f b) ≤ slot (f a)
    · simp [place, h]
    · simp [place, h, ih]

theorem map_newestFirst {β : Type} (slot : β → Int) (f : α → β) (as : List α) :
    (newestFirst (fun x => slot (f x)) as).map f = newestFirst slot (as.map f) := by
  induction as with
  | nil => rfl
  | cons a as ih => rw [newestFirst, map_place, ih, List.map_cons, newestFirst]

theorem filter_place (p : α → Bool) (a : α) (as : List α)
    (h : ∀ b ∈ as, p a = true → p b = true → slot b ≤ slot a) :
    (place slot a as).filter p = (a :: as).filter p := by
  induction as with
  | nil => rfl
  | cons b bs ih =>
    by_cases hab : slot b ≤ slot a
    · rw [place, if_pos hab]
    · have hnot : ¬(p a = true ∧ p b = true) := fun hp => hab (h b (by simp) hp.1 hp.2)
      have hbs : (place slot a bs).filter p = (a :: bs).filter p :=
        ih fun c hc => h c (List.mem_cons_of_mem b hc)
      rw [place, if_neg hab, List.filter_cons, hbs]
      cases ha : p a <;> cases hb : p b <;> simp_all

theorem filter_newestFirst (p : α → Bool) (c : Int) (hp : ∀ a, p a = true → slot a = c)
    (as : List α) : (newestFirst slot as).filter p = as.filter p := by
  induction as with
  | nil => rfl
  | cons a as ih =>
    have h : ∀ b ∈ newestFirst slot as, p a = true → p b = true → slot b ≤ slot a := by
      intro b _ ha hb
      exact Int.le_of_eq ((hp b hb).trans (hp a ha).symm)
    rw [newestFirst, filter_place slot p a _ h, List.filter_cons, List.filter_cons, ih]

theorem pairwise_place_tie {R : α → α → Prop} (a : α) (as : List α)
    (h : as.Pairwise fun x y => slot x = slot y → R x y) (ha : ∀ x ∈ as, R a x) :
    (place slot a as).Pairwise fun x y => slot x = slot y → R x y := by
  induction as with
  | nil => simp [place]
  | cons b bs ih =>
    obtain ⟨hb, hbs⟩ := List.pairwise_cons.mp h
    by_cases hab : slot b ≤ slot a
    · rw [place, if_pos hab]
      exact List.pairwise_cons.mpr ⟨fun x hx _ => ha x hx, h⟩
    · rw [place, if_neg hab]
      refine List.pairwise_cons.mpr
        ⟨fun x hx => ?_, ih hbs fun x hx => ha x (List.mem_cons_of_mem b hx)⟩
      rcases List.mem_cons.mp ((perm_place slot a bs).mem_iff.mp hx) with rfl | hx
      · intro he
        omega
      · exact hb x hx

theorem pairwise_newestFirst_tie {R : α → α → Prop} {as : List α} (h : as.Pairwise R) :
    (newestFirst slot as).Pairwise fun x y => slot x = slot y → R x y := by
  induction as with
  | nil => exact List.Pairwise.nil
  | cons a as ih =>
    obtain ⟨ha, has⟩ := List.pairwise_cons.mp h
    refine pairwise_place_tie slot a _ (ih has) fun x hx => ?_
    exact ha x ((perm_newestFirst slot as).mem_iff.mp hx)

end SignalPool.Ranking
