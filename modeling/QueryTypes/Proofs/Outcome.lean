/-! What a computation that may fail has done when it did not fail. -/

namespace QueryTypes.Outcome

variable {ε α β γ : Type}

theorem bind_eq_ok_iff {x : Except ε α} {f : α → Except ε β} {b : β} :
    (x >>= f) = .ok b ↔ ∃ a, x = .ok a ∧ f a = .ok b := by
  cases x with
  | error e => simp [bind, Except.bind]
  | ok a => simp [bind, Except.bind]

theorem map_eq_ok_iff {x : Except ε α} {f : α → β} {b : β} :
    f <$> x = .ok b ↔ ∃ a, x = .ok a ∧ f a = b := by
  cases x with
  | error e => simp [Functor.map, Except.map]
  | ok a => simp [Functor.map, Except.map]

theorem map_ne_error {x : Except ε α} {f : α → β} {e : ε} (h : x ≠ .error e) :
    x.map f ≠ .error e := by
  cases x with
  | error e' => simpa [Except.map] using h
  | ok a => simp [Except.map]

/-- A failure is another one whatever the outcome would have been. -/
theorem error_ne {e e' : ε} (h : (.error e : Except ε α) ≠ .error e') :
    (.error e : Except ε β) ≠ .error e' :=
  fun heq => h (congrArg Except.error (Except.error.inj heq))

theorem ok_of_mapError {ε' : Type} {x : Except ε α} {f : ε → ε'} {a : α}
    (h : x.mapError f = .ok a) : x = .ok a := by
  cases x with
  | error err => cases h
  | ok b => exact congrArg Except.ok (Except.ok.inj h)

theorem exists_of_isSome {x : Except ε α} (h : x.toOption.isSome = true) : ∃ a, x = .ok a := by
  cases x with
  | error e => exact absurd h Bool.false_ne_true
  | ok a => exact ⟨a, rfl⟩

theorem eq_ok_of_isSome {x : Except ε α} (a : α) (h : x.toOption.isSome = true) :
    x = .ok (x.toOption.getD a) := by
  obtain ⟨b, rfl⟩ := exists_of_isSome h
  rfl

theorem mem_of_mapM {f : α → Except ε β} {xs : List α} {ys : List β} (h : xs.mapM f = .ok ys) :
    (∀ x ∈ xs, ∃ y ∈ ys, f x = .ok y) ∧ ∀ y ∈ ys, ∃ x ∈ xs, f x = .ok y := by
  induction xs generalizing ys with
  | nil =>
    obtain rfl := Except.ok.inj h
    simp
  | cons x xs ih =>
    rw [List.mapM_cons] at h
    obtain ⟨y, hy, h⟩ := bind_eq_ok_iff.1 h
    obtain ⟨rest, hrest, h⟩ := bind_eq_ok_iff.1 h
    obtain rfl := Except.ok.inj h
    obtain ⟨hleft, hright⟩ := ih hrest
    constructor
    · intro x' hx'
      rcases List.mem_cons.1 hx' with rfl | hx'
      · exact ⟨y, List.mem_cons_self, hy⟩
      · obtain ⟨y', hy', hfx⟩ := hleft x' hx'
        exact ⟨y', List.mem_cons_of_mem _ hy', hfx⟩
    · intro y' hy'
      rcases List.mem_cons.1 hy' with rfl | hy'
      · exact ⟨x, List.mem_cons_self, hy⟩
      · obtain ⟨x', hx', hfx⟩ := hright y' hy'
        exact ⟨x', List.mem_cons_of_mem _ hx', hfx⟩

theorem map_of_mapM {f : α → Except ε β} {g : β → γ} {h : α → γ}
    (hf : ∀ x y, f x = .ok y → g y = h x) {xs : List α} {ys : List β} (hxs : xs.mapM f = .ok ys) :
    ys.map g = xs.map h := by
  induction xs generalizing ys with
  | nil =>
    obtain rfl := Except.ok.inj hxs
    rfl
  | cons x xs ih =>
    rw [List.mapM_cons] at hxs
    obtain ⟨y, hy, hxs⟩ := bind_eq_ok_iff.1 hxs
    obtain ⟨rest, hrest, hxs⟩ := bind_eq_ok_iff.1 hxs
    obtain rfl := Except.ok.inj hxs
    rw [List.map_cons, List.map_cons, hf x y hy, ih hrest]

theorem mapM_eq_map {f : α → Except ε β} {g : α → Except ε γ} {h : β → γ}
    (hfg : ∀ x, g x = (f x).map h) (xs : List α) : xs.mapM g = (xs.mapM f).map (List.map h) := by
  induction xs with
  | nil => rfl
  | cons x xs ih =>
    rw [List.mapM_cons, List.mapM_cons, hfg, ih]
    cases f x with
    | error e => rfl
    | ok y =>
      cases xs.mapM f with
      | error e => rfl
      | ok ys => rfl

/-- All have an outcome, or the first failure is that of the whole. -/
theorem mapM_cases (f : α → Except ε β) (xs : List α) : (∃ ys, xs.mapM f = .ok ys) ∨
    ∃ x ∈ xs, ∃ e, f x = .error e ∧ xs.mapM f = .error e := by
  induction xs with
  | nil => exact .inl ⟨[], rfl⟩
  | cons x xs ih =>
    rw [List.mapM_cons]
    cases hx : f x with
    | error e => exact .inr ⟨x, List.mem_cons_self, e, hx, rfl⟩
    | ok y =>
      rcases ih with ⟨ys, hys⟩ | ⟨x', hx', e, he, hxs⟩
      · exact .inl ⟨y :: ys, by rw [hys]; rfl⟩
      · exact .inr ⟨x', List.mem_cons_of_mem _ hx', e, he, by rw [hxs]; rfl⟩

theorem bind_eq_error_iff {x : Except ε α} {f : α → Except ε β} {e : ε} :
    (x >>= f) = .error e ↔ x = .error e ∨ ∃ a, x = .ok a ∧ f a = .error e := by
  cases x with
  | error e' => simp [bind, Except.bind]
  | ok a => simp [bind, Except.bind]

/-- The first failure is that of the whole. -/
theorem mapM_eq_error_iff {f : α → Except ε β} {xs : List α} {e : ε} :
    xs.mapM f = .error e ↔ ∃ front x rest, xs = front ++ x :: rest ∧
      (∀ y ∈ front, ∃ z, f y = .ok z) ∧ f x = .error e := by
  induction xs with
  | nil => simp [pure, Except.pure]
  | cons x xs ih =>
    rw [List.mapM_cons, bind_eq_error_iff]
    constructor
    · rintro (hx | ⟨y, hy, hrest⟩)
      · exact ⟨[], x, xs, rfl, by simp, hx⟩
      · rcases bind_eq_error_iff.1 hrest with hrest | ⟨ys, -, hys⟩
        · obtain ⟨front, x', rest, rfl, hfront, hx'⟩ := ih.1 hrest
          refine ⟨x :: front, x', rest, rfl, fun z hz => ?_, hx'⟩
          rcases List.mem_cons.1 hz with rfl | hz
          · exact ⟨y, hy⟩
          · exact hfront z hz
        · cases hys
    · rintro ⟨front, x', rest, hxs, hfront, hx'⟩
      cases front with
      | nil =>
        obtain ⟨rfl, rfl⟩ := List.cons.inj hxs
        exact .inl hx'
      | cons y front =>
        obtain ⟨rfl, rfl⟩ := List.cons.inj hxs
        obtain ⟨z, hz⟩ := hfront x List.mem_cons_self
        refine .inr ⟨z, hz, bind_eq_error_iff.2 (.inl (ih.2 ⟨front, x', rest, rfl, ?_, hx'⟩))⟩
        exact fun w hw => hfront w (List.mem_cons_of_mem _ hw)

theorem mapM_eq_some_iff {f : α → Option β} {xs : List α} {ys : List β} :
    xs.mapM f = some ys ↔ xs.map f = ys.map some := by
  induction xs generalizing ys with
  | nil => cases ys <;> simp
  | cons x xs ih =>
    rw [List.mapM_cons, List.map_cons]
    constructor
    · intro h
      obtain ⟨y, hy, h⟩ := Option.bind_eq_some_iff.1 h
      obtain ⟨rest, hrest, h⟩ := Option.bind_eq_some_iff.1 h
      obtain rfl := Option.some.inj h
      rw [List.map_cons, hy, ih.1 hrest]
    · intro h
      cases ys with
      | nil => cases h
      | cons y ys =>
        obtain ⟨hy, hrest⟩ := List.cons.inj h
        rw [hy, ih.2 hrest]
        rfl

theorem exists_of_mapM_eq_some {f : α → Option β} {xs : List α} {ys : List β}
    (h : xs.mapM f = some ys) : ∀ y ∈ ys, ∃ x ∈ xs, f x = some y := by
  intro y hy
  have hmem : some y ∈ xs.map f := mapM_eq_some_iff.1 h ▸ List.mem_map_of_mem hy
  exact List.mem_map.1 hmem

theorem length_of_mapM_eq_some {f : α → Option β} {xs : List α} {ys : List β}
    (h : xs.mapM f = some ys) : ys.length = xs.length := by
  have hlength := congrArg List.length (mapM_eq_some_iff.1 h)
  rw [List.length_map, List.length_map] at hlength
  exact hlength.symm

/-- Something missing is a failure. -/
theorem mapM_elim_eq_ok {f : α → Option β} {e : ε} {xs : List α} {ys : List β}
    (h : xs.mapM (fun x => (f x).elim (Except.error e) Except.ok) = .ok ys) :
    xs.mapM f = some ys := by
  refine mapM_eq_some_iff.2 ?_
  rw [map_of_mapM (g := some) (h := f) (fun x y hxy => ?_) h]
  cases hx : f x with
  | none => simp [hx] at hxy
  | some z => simpa [hx] using hxy.symm

/-- In another order the same comes out, in another order. -/
theorem exists_perm_of_mapM {f : α → Except ε β} {xs xs' : List α} {ys : List β}
    (hperm : xs.Perm xs') (h : xs.mapM f = .ok ys) :
    ∃ ys', xs'.mapM f = .ok ys' ∧ ys.Perm ys' := by
  induction hperm generalizing ys with
  | nil => exact ⟨ys, h, .refl _⟩
  | cons x _ ih =>
    rw [List.mapM_cons] at h
    obtain ⟨y, hy, h⟩ := bind_eq_ok_iff.1 h
    obtain ⟨rest, hrest, h⟩ := bind_eq_ok_iff.1 h
    obtain rfl := Except.ok.inj h
    obtain ⟨rest', hrest', hperm⟩ := ih hrest
    refine ⟨y :: rest', ?_, hperm.cons y⟩
    rw [List.mapM_cons, hy, hrest']
    rfl
  | swap x x' xs =>
    rw [List.mapM_cons] at h
    obtain ⟨y', hy', h⟩ := bind_eq_ok_iff.1 h
    obtain ⟨rest, hrest, h⟩ := bind_eq_ok_iff.1 h
    obtain rfl := Except.ok.inj h
    rw [List.mapM_cons] at hrest
    obtain ⟨y, hy, hrest⟩ := bind_eq_ok_iff.1 hrest
    obtain ⟨ys, hys, hrest⟩ := bind_eq_ok_iff.1 hrest
    obtain rfl := Except.ok.inj hrest
    refine ⟨y :: y' :: ys, ?_, .swap y y' ys⟩
    rw [List.mapM_cons, List.mapM_cons, hy, hy', hys]
    rfl
  | trans _ _ ih ih' =>
    obtain ⟨middle, hmiddle, hperm⟩ := ih h
    obtain ⟨last, hlast, hperm'⟩ := ih' hmiddle
    exact ⟨last, hlast, hperm.trans hperm'⟩

/-- Whatever the failure is, it is one of these. -/
def FailsIn (p : ε → Prop) (x : Except ε α) : Prop := ∀ e, x = .error e → p e

namespace FailsIn

variable {p : ε → Prop}

theorem ok (a : α) : FailsIn p (.ok a) := fun _ h => by cases h

theorem error {e : ε} (h : p e) : FailsIn p (.error e : Except ε α) :=
  fun _ he => Except.error.inj he ▸ h

theorem bind {x : Except ε α} {f : α → Except ε β} (hx : FailsIn p x)
    (hf : ∀ a, x = .ok a → FailsIn p (f a)) : FailsIn p (x >>= f) := by
  intro e he
  rcases bind_eq_error_iff.1 he with he | ⟨a, ha, he⟩
  · exact hx e he
  · exact hf a ha e he

theorem ite {c : Prop} [Decidable c] {x y : Except ε α} (hx : c → FailsIn p x)
    (hy : ¬c → FailsIn p y) : FailsIn p (if c then x else y) := by
  split
  · exact hx ‹_›
  · exact hy ‹_›

theorem mapM {f : α → Except ε β} {xs : List α} (h : ∀ x ∈ xs, FailsIn p (f x)) :
    FailsIn p (xs.mapM f) := by
  intro e he
  obtain ⟨front, x, rest, rfl, -, hx⟩ := mapM_eq_error_iff.1 he
  exact h x (by simp) e hx

end FailsIn

/-- The outcome is one of which `post` holds, or the failure is one of which `p` holds. -/
def Ends (p : ε → Prop) (post : α → Prop) (x : Except ε α) : Prop :=
  FailsIn p x ∧ ∀ a, x = .ok a → post a

namespace Ends

variable {p : ε → Prop} {post : α → Prop}

theorem ok {a : α} (h : post a) : Ends p post (.ok a) :=
  ⟨.ok a, fun _ ha => Except.ok.inj ha ▸ h⟩

theorem error {e : ε} (h : p e) : Ends p post (.error e : Except ε α) :=
  ⟨.error h, fun _ ha => by cases ha⟩

theorem bind {x : Except ε α} {f : α → Except ε β} {final : β → Prop} (hx : Ends p post x)
    (hf : ∀ a, post a → Ends p final (f a)) : Ends p final (x >>= f) := by
  refine ⟨.bind hx.1 fun a ha => (hf a (hx.2 a ha)).1, fun b hb => ?_⟩
  obtain ⟨a, ha, hb⟩ := bind_eq_ok_iff.1 hb
  exact (hf a (hx.2 a ha)).2 b hb

theorem ite {c : Prop} [Decidable c] {x y : Except ε α} (hx : c → Ends p post x)
    (hy : ¬c → Ends p post y) : Ends p post (if c then x else y) := by
  split
  · exact hx ‹_›
  · exact hy ‹_›

end Ends

variable {σ : Type}

/-- From every state of which `inv` holds a computation comes to such a state, with an outcome of
which `post` holds, or fails as `p` says. -/
def Keeps (inv : σ → Prop) (p : ε → Prop) (post : α → Prop) (x : StateT σ (Except ε) α) : Prop :=
  ∀ s, inv s → Ends p (fun r => post r.1 ∧ inv r.2) (x.run s)

namespace Keeps

variable {inv : σ → Prop} {p : ε → Prop} {post : α → Prop}

theorem pure {a : α} (h : post a) : Keeps inv p post (Pure.pure a) := fun _ hs => .ok ⟨h, hs⟩

theorem throw {e : ε} (h : p e) :
    Keeps inv p post (MonadExcept.throw e : StateT σ (Except ε) α) :=
  fun _ _ => .error h

theorem lift {x : Except ε α} (h : Ends p post x) :
    Keeps inv p post (liftM x : StateT σ (Except ε) α) :=
  fun _ hs => h.bind fun _ ha => .ok ⟨ha, hs⟩

theorem get : Keeps inv p inv (MonadState.get : StateT σ (Except ε) σ) := fun _ hs => .ok ⟨hs, hs⟩

theorem set {s : σ} (h : inv s) :
    Keeps inv p (fun _ => True) (MonadStateOf.set s : StateT σ (Except ε) PUnit) :=
  fun _ _ => .ok ⟨trivial, h⟩

theorem modify {f : σ → σ} (h : ∀ s, inv s → inv (f s)) :
    Keeps inv p (fun _ => True) (modifyThe σ f : StateT σ (Except ε) PUnit) :=
  fun s hs => .ok ⟨trivial, h s hs⟩

theorem bind {x : StateT σ (Except ε) α} {f : α → StateT σ (Except ε) β} {final : β → Prop}
    (hx : Keeps inv p post x) (hf : ∀ a, post a → Keeps inv p final (f a)) :
    Keeps inv p final (x >>= f) := by
  intro s hs
  rw [StateT.run_bind]
  exact (hx s hs).bind fun r hr => hf r.1 hr.1 r.2 hr.2

theorem ite {c : Prop} [Decidable c] {x y : StateT σ (Except ε) α} (hx : Keeps inv p post x)
    (hy : Keeps inv p post y) : Keeps inv p post (if c then x else y) := by
  split
  · exact hx
  · exact hy

/-- Something in front of the rest, if a condition holds. -/
theorem before {c : Prop} [Decidable c] {y : StateT σ (Except ε) PUnit}
    {x : StateT σ (Except ε) α} (hy : Keeps inv p (fun _ => True) y) (hx : Keeps inv p post x) :
    Keeps inv p post (if c then do y; x else x) :=
  .ite (.bind hy fun _ _ => hx) hx

end Keeps

end QueryTypes.Outcome
